import RpcMuduo.Bag
import RpcMuduo.Endpoint

/-!
# The replies of a server

Every request is answered once: at once when it cannot be dispatched, else when the service
runs the closure it was given.
-/
namespace RpcMuduo.Endpoint
open RpcMeta Run

variable {M : Type*}

def requests (s : Endpoint M) : List RpcMetaMessage :=
  s.received.filter fun message => message.type = .REQUEST

def replies (s : Endpoint M) : List RpcMetaMessage :=
  s.sent.filter fun message => message.type = .RESPONSE

/-- The service is registered under the name that the request gives. -/
def Registered (channel : RpcChannel M) (request : RpcMetaMessage) (service : Service M) : Prop :=
  ∃ services, channel.services = some services ∧
    services.lookup request.getService = some service

/-- The error that a request deserves; `none` when it is to be served. -/
inductive Expected (channel : RpcChannel M) (request : RpcMetaMessage) : Option ErrorCode → Prop
  | noService (h : ∀ service, ¬ Registered channel request service) :
      Expected channel request (some .NO_SERVICE)
  | noMethod {service : Service M} (hs : Registered channel request service)
      (hm : service.findMethodByName request.getMethod = none) :
      Expected channel request (some .NO_METHOD)
  | invalidRequest {service : Service M} {method : MethodDescriptor M}
      (hs : Registered channel request service)
      (hm : service.findMethodByName request.getMethod = some method)
      (hp : (method.requestPrototype.parseFromString request.getRequest).1 = false) :
      Expected channel request (some .INVALID_REQUEST)
  | served {service : Service M} {method : MethodDescriptor M}
      (hs : Registered channel request service)
      (hm : service.findMethodByName request.getMethod = some method)
      (hp : (method.requestPrototype.parseFromString request.getRequest).1 = true) :
      Expected channel request none

/-- The error of a dispatch, `none` for a success. -/
def errorOf {α : Type*} : Except ErrorCode α → Option ErrorCode
  | .ok _ => none
  | .error error => some error

/-- How a reply answers a request: with the error of its dispatch, or with what the closure
found in the response object when the service ran it. -/
inductive Reply (channel : RpcChannel M) (answered : List (PendingDone M × M))
    (request : RpcMetaMessage) : RpcMetaMessage → Prop
  | refused {error : ErrorCode} (h : channel.dispatch request = .error error) :
      Reply channel answered request (RpcChannel.errorReply request error)
  | answered {p : PendingDone M} {response : M} (hp : (p, response) ∈ answered)
      (hm : p.message = request) (h : channel.dispatch request = .ok p.target) :
      Reply channel answered request
        (RpcChannel.doneCallback p.target.method response request.id)

section Dispatch

variable {channel : RpcChannel M} {request : RpcMetaMessage}

/-- The nested branches of the source compute the error that the request deserves. -/
theorem expected_dispatch (channel : RpcChannel M) (request : RpcMetaMessage) :
    Expected channel request (errorOf (channel.dispatch request)) := by
  unfold RpcChannel.dispatch
  cases hs : channel.services with
  | none =>
    refine .noService ?_
    rintro service ⟨services, hsome, -⟩
    rw [hs] at hsome
    cases hsome
  | some services =>
    cases hl : services.lookup request.getService with
    | none =>
      simp only [hl]
      refine .noService ?_
      rintro service ⟨services', hsome, hl'⟩
      rw [hs, Option.some.injEq] at hsome
      rw [← hsome, hl] at hl'
      cases hl'
    | some service =>
      have hreg : Registered channel request service := ⟨services, hs, hl⟩
      cases hm : service.findMethodByName request.getMethod with
      | none =>
        simp only [hl, hm]
        exact .noMethod hreg hm
      | some method =>
        cases hp : (method.requestPrototype.parseFromString request.getRequest).1 with
        | false =>
          simp only [hl, hm, hp]
          exact .invalidRequest hreg hm hp
        | true =>
          simp only [hl, hm, hp]
          exact .served hreg hm hp

lemma errorOf_dispatch {e : Option ErrorCode} (h : Expected channel request e) :
    errorOf (channel.dispatch request) = e := by
  cases h with
  | noService hnone =>
    cases hs : channel.services with
    | none => simp [RpcChannel.dispatch, hs, errorOf]
    | some services =>
      cases hl : services.lookup request.getService with
      | none => simp [RpcChannel.dispatch, hs, hl, errorOf]
      | some service => exact absurd ⟨services, hs, hl⟩ (hnone service)
  | noMethod hs hm =>
    obtain ⟨services, hs, hl⟩ := hs
    simp [RpcChannel.dispatch, hs, hl, hm, errorOf]
  | invalidRequest hs hm hp =>
    obtain ⟨services, hs, hl⟩ := hs
    simp [RpcChannel.dispatch, hs, hl, hm, hp, errorOf]
  | served hs hm hp =>
    obtain ⟨services, hs, hl⟩ := hs
    simp [RpcChannel.dispatch, hs, hl, hm, hp, errorOf]

lemma expected_iff {e : Option ErrorCode} :
    Expected channel request e ↔ errorOf (channel.dispatch request) = e :=
  ⟨errorOf_dispatch, fun h => h ▸ expected_dispatch channel request⟩

instance (e : Option ErrorCode) : Decidable (Expected channel request e) :=
  decidable_of_iff _ expected_iff.symm

/-- The fields of a reply: the id of the request, the error it deserves, and a response exactly
when that is none. -/
lemma reply_fields {answered : List (PendingDone M × M)} {reply : RpcMetaMessage}
    (h : Reply channel answered request reply) : reply.id = request.id ∧
      Expected channel request reply.error ∧ (reply.response.isSome ↔ reply.error = none) := by
  cases h with
  | refused h =>
    refine ⟨rfl, expected_iff.mpr ?_, ?_⟩
    · rw [h]
      rfl
    · simp [RpcChannel.errorReply, RpcMetaMessage.ofId]
  | answered hp hm h =>
    refine ⟨rfl, expected_iff.mpr ?_, ?_⟩
    · rw [h]
      rfl
    · simp [RpcChannel.doneCallback, RpcMetaMessage.ofId]

lemma dispatch_congr {channel' : RpcChannel M} (h : channel.services = channel'.services) :
    channel.dispatch request = channel'.dispatch request := by
  unfold RpcChannel.dispatch
  rw [h]

lemma Reply.mono {answered answered' : List (PendingDone M × M)} {reply : RpcMetaMessage}
    (hsub : answered ⊆ answered') (h : Reply channel answered request reply) :
    Reply channel answered' request reply := by
  cases h with
  | refused h => exact .refused h
  | answered hp hm h => exact .answered (hsub hp) hm h

end Dispatch

/-- The requests so far are those answered and those whose closure has not run. -/
structure Served (channel : RpcChannel M) (s : Endpoint M)
    (served : List (RpcMetaMessage × RpcMetaMessage)) : Prop where
  services : s.channel.services = channel.services
  replies : served.map Prod.snd = replies s
  requests : (↑(served.map Prod.fst) + ↑(s.pending.map PendingDone.message) :
    Multiset RpcMetaMessage) = ↑(requests s)
  reply : ∀ p ∈ served, Reply channel s.answered p.1 p.2
  pending : ∀ p ∈ s.pending, channel.dispatch p.message = .ok p.target ∧ p.id = p.message.id
  handled : s.handled.map PendingDone.message =
    (Endpoint.requests s).filter fun request => decide (Expected channel request none)

section Steps

variable {channel : RpcChannel M} {s : Endpoint M}
  {served : List (RpcMetaMessage × RpcMetaMessage)}

lemma served_initial (channel : RpcChannel M) : Served channel (initial channel) [] where
  services := rfl
  replies := rfl
  requests := rfl
  reply := by simp
  pending := by simp [initial]
  handled := rfl

lemma served_sendCall (h : Served channel s served) (k : ℕ) (call : Call M) :
    Served channel (s.sendCall k call) served where
  services := h.services
  replies := by
    rw [h.replies]
    simp [Endpoint.replies, sendCall, RpcChannel.requestMessage]
  requests := h.requests
  reply := h.reply
  pending := h.pending
  handled := h.handled

/-- Messages that are no requests ask for nothing. -/
lemma served_ignored (h : Served channel s served) {message : RpcMetaMessage}
    (htype : message.type ≠ .REQUEST) :
    Served channel { s with received := s.received ++ [message] } served := by
  have hrequests : Endpoint.requests { s with received := s.received ++ [message] } =
      Endpoint.requests s := by
    simp [Endpoint.requests, htype]
  exact ⟨h.services, h.replies, hrequests ▸ h.requests, h.reply, h.pending,
    hrequests ▸ h.handled⟩

lemma served_onResponse (h : Served channel s served) (message : RpcMetaMessage) :
    Served channel (s.onResponse message) served where
  services := (RpcChannel.services_takeOutstanding _ _).trans h.services
  replies := h.replies
  requests := h.requests
  reply := h.reply
  pending := h.pending
  handled := h.handled

lemma requests_concat {received : List RpcMetaMessage} {message : RpcMetaMessage}
    (htype : message.type = .REQUEST) :
    (received ++ [message]).filter (fun m => m.type = .REQUEST) =
      received.filter (fun m => m.type = .REQUEST) ++ [message] := by
  simp [htype]

/-- A request that cannot be dispatched is answered on the spot, any other is handed over. -/
lemma served_request (h : Served channel s served) {message : RpcMetaMessage}
    (htype : message.type = .REQUEST) : ∃ served',
      Served channel { s.onRequest message with received := s.received ++ [message] } served' := by
  have hrequests := h.requests
  have hhandled := h.handled
  have hdispatch : s.channel.dispatch message = channel.dispatch message :=
    dispatch_congr h.services
  simp only [Endpoint.requests] at hrequests hhandled
  unfold onRequest
  rw [hdispatch]
  cases hd : channel.dispatch message with
  | ok target =>
    have hexpected : Expected channel message none := expected_iff.mpr (by rw [hd]; rfl)
    refine ⟨served, h.services, h.replies, ?_, h.reply, ?_, ?_⟩
    · simp only [Endpoint.requests, requests_concat htype, List.map_append, List.map_singleton,
        Bag.coe_concat, ← hrequests, add_assoc]
    · intro p hp
      rcases List.mem_append.mp hp with hp | hp
      · exact h.pending p hp
      · rw [List.mem_singleton.mp hp]
        exact ⟨hd, rfl⟩
    · simp only [Endpoint.requests, requests_concat htype, List.map_append, List.map_singleton,
        hhandled, List.filter_append]
      simp [hexpected]
  | error error =>
    have hexpected : ¬ Expected channel message none := by
      rw [expected_iff, hd]
      exact Option.some_ne_none error
    refine ⟨served ++ [(message, RpcChannel.errorReply message error)], h.services, ?_, ?_, ?_,
      h.pending, ?_⟩
    · rw [List.map_append, h.replies]
      simp [Endpoint.replies, RpcChannel.errorReply, RpcMetaMessage.ofId]
    · simp only [Endpoint.requests, requests_concat htype, List.map_append, List.map_singleton,
        Bag.coe_concat, ← hrequests]
      abel
    · intro p hp
      rcases List.mem_append.mp hp with hp | hp
      · exact h.reply p hp
      · rw [List.mem_singleton.mp hp]
        exact .refused hd
    · simp only [Endpoint.requests, requests_concat htype, hhandled, List.filter_append]
      simp [hexpected]

lemma served_onRpcMessage (h : Served channel s served) (message : RpcMetaMessage) :
    ∃ served', Served channel (s.onRpcMessage message) served' := by
  unfold onRpcMessage
  cases htype : message.type with
  | RESPONSE =>
    exact ⟨served, served_ignored (served_onResponse h message) (by simp [htype])⟩
  | REQUEST => exact served_request h htype
  | ERROR => exact ⟨served, served_ignored h (by simp [htype])⟩

lemma served_resumeFrame (h : Served channel s served) (frame : Frame) :
    Served channel (s.resumeFrame frame) served := by
  cases frame <;> exact ⟨h.services, h.replies, h.requests, h.reply, h.pending, h.handled⟩

/-- Running a closure answers the request that it was made for. -/
lemma served_doneCallback (h : Served channel s served) {k : ℕ} {p : PendingDone M}
    (hk : s.pending[k]? = some p) (response : M) : ∃ served',
      Served channel (s.doneCallback k p response) served' := by
  obtain ⟨hdispatch, hid⟩ := h.pending p (List.mem_of_getElem? hk)
  have hpending := Bag.map_eraseIdx hk PendingDone.message
  refine ⟨served ++ [(p.message, RpcChannel.doneCallback p.target.method response p.id)],
    h.services, ?_, ?_, ?_, ?_, h.handled⟩
  · rw [List.map_append, h.replies]
    simp [Endpoint.replies, doneCallback, RpcChannel.doneCallback, RpcMetaMessage.ofId]
  · have hrequests := h.requests
    rw [hpending] at hrequests
    simp only [doneCallback, List.map_append, List.map_singleton, Bag.coe_concat]
    rw [Endpoint.requests] at hrequests ⊢
    rw [← hrequests]
    abel
  · intro q hq
    rcases List.mem_append.mp hq with hq | hq
    · exact (h.reply q hq).mono (List.subset_append_left _ _)
    · rw [List.mem_singleton.mp hq, hid]
      exact .answered (List.mem_append_right _ (List.mem_singleton_self _)) rfl hdispatch
  · intro q hq
    exact h.pending q (List.mem_of_mem_eraseIdx hq)

lemma served_step (h : Served channel s served) {e : Event M} {t : Endpoint M}
    (hstep : step s e = some t) : ∃ served', Served channel t served' := by
  cases e with
  | begin args =>
    simp only [step, Option.some.injEq] at hstep
    exact ⟨served, hstep ▸
      ⟨h.services, h.replies, h.requests, h.reply, h.pending, h.handled⟩⟩
  | register k =>
    obtain ⟨call, -, rfl⟩ := Option.map_eq_some_iff.mp hstep
    exact ⟨served, h.services, h.replies, h.requests, h.reply, h.pending, h.handled⟩
  | send k =>
    obtain ⟨call, -, rfl⟩ := Option.map_eq_some_iff.mp hstep
    exact ⟨served, served_sendCall h k call⟩
  | receive message =>
    simp only [step, Option.ite_none_right_eq_some, Option.some.injEq] at hstep
    obtain ⟨-, rfl⟩ := hstep
    exact served_onRpcMessage h message
  | resume =>
    obtain ⟨frame, -, rfl⟩ := Option.map_eq_some_iff.mp hstep
    exact ⟨served, served_resumeFrame h frame⟩
  | runDone k response =>
    obtain ⟨p, hk, rfl⟩ := Option.map_eq_some_iff.mp hstep
    exact served_doneCallback h hk response

end Steps

theorem served_run {channel : RpcChannel M} {es : List (Event M)} {s : Endpoint M}
    (h : run step (initial channel) es = some s) : ∃ served, Served channel s served := by
  refine run_invariant (P := fun s => ∃ served, Served channel s served) ?_ ?_ h
  · rintro s e t ⟨served, hs⟩ hstep
    exact served_step hs hstep
  · exact ⟨[], served_initial channel⟩

lemma pending_ids {channel : RpcChannel M} {s : Endpoint M}
    {served : List (RpcMetaMessage × RpcMetaMessage)} (h : Served channel s served) :
    s.pending.map PendingDone.id = (s.pending.map PendingDone.message).map RpcMetaMessage.id := by
  rw [List.map_map]
  exact List.map_congr_left fun p hp => (h.pending p hp).2

/-- On the channel of a server, at every moment of every run: the ids of the replies sent and of
the closures not yet run are together the ids of the requests; each reply has the id of the
request that it answers, the error that this request deserves, and a response exactly when it
deserves none; and the services were called for the requests that deserve none. -/
theorem server_answers_once (id : CallId) (services : List (Service M)) (es : List (Event M))
    (s : Endpoint M)
    (h : run step (initial (RpcChannel.new id (some (registerServices services)))) es = some s) :
    let channel : RpcChannel M := RpcChannel.new id (some (registerServices services))
    (↑((replies s).map RpcMetaMessage.id) + ↑(s.pending.map PendingDone.id) : Multiset CallId) =
        ↑((requests s).map RpcMetaMessage.id) ∧
      (∃ served : List (RpcMetaMessage × RpcMetaMessage),
        served.map Prod.snd = replies s ∧
        (↑(served.map Prod.fst) + ↑(s.pending.map PendingDone.message) :
          Multiset RpcMetaMessage) = ↑(requests s) ∧
        ∀ p ∈ served, p.2.id = p.1.id ∧ Expected channel p.1 p.2.error ∧
          (p.2.response.isSome ↔ p.2.error = none)) ∧
      s.handled.map PendingDone.message =
        (requests s).filter (fun request => decide (Expected channel request none)) ∧
      ∀ request service, Registered channel request service ↔
        services.reverse.find? (fun service => service.fullName == request.getService) =
          some service := by
  intro channel
  obtain ⟨served, hs⟩ := served_run h
  refine ⟨?_, ⟨served, hs.replies, hs.requests, fun p hp => reply_fields (hs.reply p hp)⟩,
    hs.handled, ?_⟩
  · have hids := congrArg (Multiset.map RpcMetaMessage.id) hs.requests
    rw [Multiset.map_add, Multiset.map_coe, Multiset.map_coe, Multiset.map_coe,
      ← pending_ids hs] at hids
    have hreplies : (replies s).map RpcMetaMessage.id =
        (served.map Prod.fst).map RpcMetaMessage.id := by
      rw [← hs.replies, List.map_map, List.map_map]
      exact List.map_congr_left fun p hp => (reply_fields (hs.reply p hp)).1
    rw [hreplies, hids]
  · intro request service
    rw [← lookup_registerServices]
    constructor
    · rintro ⟨table, htable, hl⟩
      rw [← Option.some.inj htable] at hl
      exact hl
    · intro hl
      exact ⟨_, rfl, hl⟩

/-- An unknown service, a served request answered inside the method, an unknown method and a
second request of the same id that stays open. -/
def requestEvents : List (Event Bytes) :=
  [.receive (.ofId .REQUEST 1), .receive (RpcChannel.requestMessage ⟨echo, [5], ⟨none, none⟩⟩ 2),
    .runDone 0 [6], .resume, .receive { RpcMetaMessage.ofId .REQUEST 3 with service := some [69] },
    .receive (RpcChannel.requestMessage ⟨echo, [7], ⟨none, none⟩⟩ 2)]

theorem server_answers_once_requestEvents : ∃ s : Endpoint Bytes,
    run step (initial (RpcChannel.new 0 (some (registerServices [⟨[69], [echo]⟩]))))
        requestEvents = some s ∧
      s.pending.length = 1 ∧ (replies s).length = 3 ∧
      (↑((replies s).map RpcMetaMessage.id) + ↑(s.pending.map PendingDone.id) :
        Multiset CallId) = ↑((requests s).map RpcMetaMessage.id) :=
  ⟨_, rfl, rfl, rfl, (server_answers_once 0 [⟨[69], [echo]⟩] requestEvents _ rfl).1⟩

end RpcMuduo.Endpoint
