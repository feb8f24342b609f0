import RpcMuduo.CallCorrelation
import RpcMuduo.EchoPb
import RpcMuduo.ProtobufWire

/-!
# EchoService

The service of `echo.proto` as `qpstest` implements it, and a client that calls it through the
stub from any number of threads. Every reply returns the payload of the call that it completes.
-/
namespace RpcMuduo.EchoService
open RpcMeta Run EchoPb RpcConnection

variable {υ : Type}

/-- "echo.EchoService" -/
def fullName : Bytes := [101, 99, 104, 111, 46, 69, 99, 104, 111, 83, 101, 114, 118, 105, 99, 101]

/-- "Echo" -/
def methodName : Bytes := [69, 99, 104, 111]

section Service

variable (w : WireFormat υ)

def methodDescriptor : MethodDescriptor (EchoMessage υ) where
  service := fullName
  name := methodName
  requestPrototype := EchoRequest.prototype w
  responsePrototype := EchoResponse.prototype w

def descriptor : Service (EchoMessage υ) := ⟨fullName, [methodDescriptor w]⟩

/-- The response object that `EchoServiceImpl::Echo` leaves to its closure. -/
def Echo (request : EchoMessage υ) : EchoMessage υ := EchoMessage.new.setPayload request.getPayload

/-- The channel that the server makes for a connection. -/
def channel (id : CallId) : RpcChannel (EchoMessage υ) :=
  RpcChannel.new id (some (registerServices [descriptor w]))

end Service

variable {w : WireFormat υ} {clientId serverId : CallId}

section Answers

/-- What the bytes of a message ask for. -/
def asked (w : WireFormat υ) (message : RpcMetaMessage) : Except ErrorCode (EchoMessage υ) :=
  if message.getService ≠ fullName then .error .NO_SERVICE
  else if message.getMethod ≠ methodName then .error .NO_METHOD
  else
    let parsed := (EchoRequest.prototype w).parseFromString message.getRequest
    if parsed.1 then .ok parsed.2 else .error .INVALID_REQUEST

/-- An error, or a response that is read as the payload that was asked for. -/
def Answers (w : WireFormat υ) (request reply : RpcMetaMessage) : Prop :=
  match asked w request with
  | .error error => reply.error = some error ∧ reply.response = none
  | .ok message => reply.error = none ∧ ∃ bytes payload, reply.response = some bytes ∧
      message.payload = some payload ∧
      (EchoResponse.prototype w).parseFromString bytes =
        (true, EchoMessage.new.setPayload payload)

lemma dispatch_asked (message : RpcMetaMessage) : (channel w serverId).dispatch message =
    (asked w message).map fun request => ⟨descriptor w, methodDescriptor w, request⟩ := by
  have hlookup : (registerServices [descriptor w]).lookup message.getService =
      if message.getService = fullName then some (descriptor w) else none := by
    rw [lookup_registerServices]
    by_cases hname : message.getService = fullName
    · rw [if_pos hname, hname]
      rfl
    · rw [if_neg hname, List.reverse_singleton, List.find?_singleton, if_neg]
      simpa [descriptor] using Ne.symm hname
  have hfind : (descriptor w).findMethodByName message.getMethod =
      if message.getMethod = methodName then some (methodDescriptor w) else none := by
    by_cases hname : message.getMethod = methodName
    · rw [if_pos hname, hname]
      rfl
    · rw [if_neg hname, Service.findMethodByName, descriptor, List.find?_singleton, if_neg]
      simpa [methodDescriptor] using Ne.symm hname
  simp only [RpcChannel.dispatch, channel, RpcChannel.new, hlookup, asked]
  by_cases hservice : message.getService = fullName
  · simp only [hservice, if_true, hfind, ne_eq, not_true_eq_false, if_false]
    by_cases hmethod : message.getMethod = methodName
    · simp only [hmethod, if_true, not_true_eq_false, if_false]
      by_cases hparsed :
        ((EchoRequest.prototype w).parseFromString message.getRequest).1 = true
      · simp [methodDescriptor, hparsed, Except.map]
      · simp [methodDescriptor, hparsed, Except.map]
    · simp [hmethod, Except.map]
  · simp [hservice, Except.map]

/-- What is asked for came out of the parser. -/
lemma payload_of_asked {request : RpcMetaMessage} {message : EchoMessage υ}
    (h : asked w request = .ok message) :
    ∃ payload, message.payload = some payload ∧ payload.length < w.maxStringSize := by
  unfold asked at h
  split_ifs at h with hservice hmethod
  dsimp only at h
  split_ifs at h with hparsed
  obtain rfl := Except.ok.inj h
  exact EchoMessage.payload_of_parseFromString (Prod.ext hparsed rfl)

lemma answers_of_reply {answered : List (PendingDone (EchoMessage υ) × EchoMessage υ)}
    (hanswered : ∀ p v, (p, v) ∈ answered → v = Echo p.target.request)
    {request reply : RpcMetaMessage}
    (h : Endpoint.Reply (channel w serverId) answered request reply) : Answers w request reply := by
  unfold Answers
  cases h with
  | refused hdispatch =>
    rw [dispatch_asked] at hdispatch
    cases hasked : asked w request with
    | ok message => simp [hasked, Except.map] at hdispatch
    | error error =>
      simp only [hasked, Except.map, Except.error.injEq] at hdispatch
      exact ⟨congrArg some hdispatch.symm, rfl⟩
  | @answered p v hp hmessage hdispatch =>
    rw [dispatch_asked] at hdispatch
    cases hasked : asked w request with
    | error error => simp [hasked, Except.map] at hdispatch
    | ok message =>
      simp only [hasked, Except.map, Except.ok.injEq] at hdispatch
      obtain ⟨payload, hpayload, hfits⟩ := payload_of_asked hasked
      refine ⟨rfl, _, payload, rfl, hpayload, ?_⟩
      rw [hanswered p v hp, ← hdispatch, Echo, EchoMessage.getPayload, hpayload, Option.getD_some]
      exact EchoResponse.parse_serialize hfits

end Answers

/-- What a step of one end adds to the calls, to the answers and to what it did to its callers. -/
inductive Recorded {M : Type*} (a b : Endpoint M) : Endpoint.Event M → Prop
  | kept {e : Endpoint.Event M} (calls : b.calls = a.calls) (answered : b.answered = a.answered)
      (log : b.log = a.log) : Recorded a b e
  | begin (call : Call M) (calls : b.calls = a.calls ++ [call]) (answered : b.answered = a.answered)
      (log : b.log = a.log) : Recorded a b (.begin call.args)
  | taken {out : OutstandingCall} {m : RpcMetaMessage} (frame : a.frame = some (.taken out m))
      (calls : b.calls = a.calls) (answered : b.answered = a.answered)
      (log : b.log = a.log ++ RpcChannel.complete out m) : Recorded a b .resume
  | finished (response : Option ℕ) (calls : b.calls = a.calls) (answered : b.answered = a.answered)
      (log : b.log = a.log ++ (response.map Action.release).toList) : Recorded a b .resume
  | done {k : ℕ} {p : PendingDone M} (v : M) (pending : a.pending[k]? = some p)
      (calls : b.calls = a.calls) (answered : b.answered = a.answered ++ [(p, v)])
      (log : b.log = a.log) : Recorded a b (.runDone k v)

lemma recorded_step {M : Type*} {a b : Endpoint M} {e : Endpoint.Event M}
    (h : Endpoint.step a e = some b) : Recorded a b e := by
  cases e with
  | begin args =>
    simp only [Endpoint.step, Option.some.injEq] at h
    exact h ▸ .begin ⟨_, args⟩ rfl rfl rfl
  | register k =>
    obtain ⟨call, -, rfl⟩ := Option.map_eq_some_iff.mp h
    exact .kept rfl rfl rfl
  | send k =>
    obtain ⟨call, -, rfl⟩ := Option.map_eq_some_iff.mp h
    exact .kept rfl rfl rfl
  | receive message =>
    simp only [Endpoint.step, Option.ite_none_right_eq_some, Option.some.injEq] at h
    obtain ⟨-, rfl⟩ := h
    unfold Endpoint.onRpcMessage Endpoint.onRequest
    cases message.type with
    | REQUEST => cases a.channel.dispatch message <;> exact .kept rfl rfl rfl
    | RESPONSE => exact .kept rfl rfl rfl
    | ERROR => exact .kept rfl rfl rfl
  | resume =>
    obtain ⟨frame, hframe, rfl⟩ := Option.map_eq_some_iff.mp h
    cases frame with
    | serving => exact .kept rfl rfl rfl
    | taken out m => exact .taken hframe rfl rfl rfl
    | finishing out m => exact .finished out.response rfl rfl rfl
  | runDone k v =>
    obtain ⟨p, hk, rfl⟩ := Option.map_eq_some_iff.mp h
    exact .done v hk rfl rfl rfl

section Server

/-- The requests of any peer come in, and the closures are run in any order. -/
inductive ServerEvent
  | receive (message : RpcMetaMessage)
  | resume
  | echo (k : ℕ)

def serverEvent (s : Endpoint (EchoMessage υ)) :
    ServerEvent → Option (Endpoint.Event (EchoMessage υ))
  | .receive message => some (.receive message)
  | .resume => some .resume
  | .echo k => s.pending[k]?.map fun p => .runDone k (Echo p.target.request)

def serverStep (s : Endpoint (EchoMessage υ)) (e : ServerEvent) :
    Option (Endpoint (EchoMessage υ)) :=
  (serverEvent s e).bind (Endpoint.step s)

/-- A service that echoes keeps echoing. -/
lemma echoed_step {a b : Endpoint (EchoMessage υ)} {e : Endpoint.Event (EchoMessage υ)}
    (h : ∀ p v, (p, v) ∈ a.answered → v = Echo p.target.request)
    (hstep : Endpoint.step a e = some b)
    (hecho : ∀ k v p, e = .runDone k v → a.pending[k]? = some p → v = Echo p.target.request) :
    ∀ p v, (p, v) ∈ b.answered → v = Echo p.target.request := by
  intro p v hmem
  cases recorded_step hstep with
  | kept _ answered | begin _ _ answered | taken _ _ answered | finished _ _ answered =>
    exact h p v (answered ▸ hmem)
  | @done k p' v' hpending _ answered =>
    rcases List.mem_append.mp (answered ▸ hmem) with hold | hnew
    · exact h p v hold
    · obtain ⟨rfl, rfl⟩ := Prod.mk.inj (List.mem_singleton.mp hnew)
      exact hecho k _ _ rfl hpending

structure Serving (w : WireFormat υ) (serverId : CallId) (s : Endpoint (EchoMessage υ)) : Prop where
  served : ∃ served, Endpoint.Served (channel w serverId) s served
  answered : ∀ p v, (p, v) ∈ s.answered → v = Echo p.target.request

lemma serving_step {a b : Endpoint (EchoMessage υ)} (h : Serving w serverId a) {e : ServerEvent}
    (hstep : serverStep a e = some b) : Serving w serverId b := by
  obtain ⟨served, hserved⟩ := h.served
  obtain ⟨e', he, hstep⟩ := Option.bind_eq_some_iff.mp hstep
  refine ⟨Endpoint.served_step hserved hstep, ?_⟩
  refine echoed_step h.answered hstep ?_
  intro k v p hdone hpending
  subst hdone
  cases e with
  | receive message => cases he
  | resume => cases he
  | echo k' =>
    obtain ⟨p', hpending', hevent⟩ := Option.map_eq_some_iff.mp he
    cases hevent
    rw [hpending] at hpending'
    rw [Option.some.inj hpending']

end Server

/-- In every run of the server with any peer, whatever bytes that sends: the requests received
are those answered and those whose closure has not run, and each answer is the error that the
request deserves or returns the payload that its bytes hold. -/
theorem requests_echoed (w : WireFormat υ) (serverId : CallId) {es : List ServerEvent}
    {s : Endpoint (EchoMessage υ)}
    (hrun : run serverStep (Endpoint.initial (channel w serverId)) es = some s) :
    ∃ served : List (RpcMetaMessage × RpcMetaMessage),
      served.map Prod.snd = Endpoint.replies s ∧
      (↑(served.map Prod.fst) + ↑(s.pending.map PendingDone.message) : Multiset RpcMetaMessage) =
        ↑(Endpoint.requests s) ∧
      ∀ request reply, (request, reply) ∈ served →
        reply.id = request.id ∧ Answers w request reply := by
  have hserving : Serving w serverId s :=
    run_invariant (fun _ _ _ h hstep => serving_step h hstep)
      ⟨⟨[], Endpoint.served_initial _⟩, by simp [Endpoint.initial]⟩ hrun
  obtain ⟨served, hserved⟩ := hserving.served
  refine ⟨served, hserved.replies, hserved.requests, ?_⟩
  intro request reply hmem
  have hreply := hserved.reply (request, reply) hmem
  exact ⟨(Endpoint.reply_fields hreply).1, answers_of_reply hserving.answered hreply⟩

/-- A payload that comes twice with a field between that the request does not know, a request
without a payload, and one that names no service. -/
def peerRequests : List ServerEvent :=
  [.receive ⟨.REQUEST, 7, fullName, methodName, some [10, 1, 65, 24, 5, 10, 1, 66], none, none⟩,
    .echo 0, .resume, .receive ⟨.REQUEST, 8, fullName, methodName, some [24, 5], none, none⟩,
    .receive (.ofId .REQUEST 9)]

theorem requests_echoed_peerRequests : ∃ s,
    run serverStep (Endpoint.initial (channel ProtobufWire.wireFormat 0)) peerRequests = some s ∧
      s.sent.map (fun m => (m.id, m.response, m.error)) = [(7, some [18, 1, 66], none),
        (8, none, some .INVALID_REQUEST), (9, none, some .NO_SERVICE)] ∧
      ∃ served : List (RpcMetaMessage × RpcMetaMessage),
        served.map Prod.snd = Endpoint.replies s ∧
        ∀ request reply, (request, reply) ∈ served →
          Answers ProtobufWire.wireFormat request reply := by
  obtain ⟨s, hs, hsent⟩ := Option.map_eq_some_iff.mp (show
    (run serverStep (Endpoint.initial (channel ProtobufWire.wireFormat 0)) peerRequests).map
      (fun s => s.sent.map fun m => (m.id, m.response, m.error)) =
      some [(7, some [18, 1, 66], none), (8, none, some .INVALID_REQUEST),
        (9, none, some .NO_SERVICE)] by decide +kernel)
  obtain ⟨served, hreplies, -, hanswers⟩ := requests_echoed ProtobufWire.wireFormat 0 hs
  exact ⟨s, hs, hsent, served, hreplies, fun request reply h => (hanswers request reply h).2⟩

section Machine

variable (w : WireFormat υ)

/-- The stub, with a request that the client has just made. -/
def stubArgs (payload : Bytes) (out : OutstandingCall) : CallArgs (EchoMessage υ) :=
  ⟨methodDescriptor w, EchoMessage.new.setPayload payload, out⟩

/-- `echo k` is the service running the closure of the `k`-th request that it holds. -/
inductive Event
  | call (payload : Bytes) (out : OutstandingCall)
  | register (k : ℕ)
  | send (k : ℕ)
  | serverReceive
  | serverResume
  | echo (k : ℕ)
  | clientReceive
  | clientResume

def initial (clientId serverId : CallId) : RpcConnection (EchoMessage υ) :=
  RpcConnection.initial clientId serverId [descriptor w]

def event (s : RpcConnection (EchoMessage υ)) : Event → Option (RpcConnection.Event (EchoMessage υ))
  | .call payload out => some (.begin (stubArgs w payload out))
  | .register k => some (.register k)
  | .send k => some (.send k)
  | .serverReceive => some .serverReceive
  | .serverResume => some .serverResume
  | .echo k => s.server.pending[k]?.map fun p => .runDone k (Echo p.target.request)
  | .clientReceive => some .clientReceive
  | .clientResume => some .clientResume

def step (s : RpcConnection (EchoMessage υ)) (e : Event) : Option (RpcConnection (EchoMessage υ)) :=
  (event w s e).bind (RpcConnection.step s)

end Machine

/-- The bytes are a response with the payload of the request, and with nothing else. -/
def Echoes (w : WireFormat υ) (call : Call (EchoMessage υ)) (bytes : Bytes) : Prop :=
  (EchoResponse.prototype w).parseFromString bytes = (true, call.args.request)

variable {s t : RpcConnection (EchoMessage υ)}

/-- The wire format can carry the payloads, and no id is issued twice. -/
structure Within (w : WireFormat υ) (s : RpcConnection (EchoMessage υ)) : Prop where
  calls : s.client.calls.length < 2 ^ 64
  fits : ∀ call ∈ s.client.calls, call.args.request.Fits w

structure Echoing (w : WireFormat υ) (clientId serverId : CallId)
    (s : RpcConnection (EchoMessage υ)) : Prop where
  balanced : Balanced clientId (channel w serverId) s
  stub : ∀ call ∈ s.client.calls, ∃ payload out, call.args = stubArgs w payload out
  answered : ∀ p v, (p, v) ∈ s.server.answered → v = Echo p.target.request
  log : ∀ r bytes, Action.parse r bytes ∈ s.client.log →
    ∃ call ∈ s.client.calls, call.args.out.response = some r ∧ Echoes w call bytes

section Replies

variable {m : RpcMetaMessage}

/-- The server finds the method that the stub names and takes the request. -/
lemma asked_stub {payload : Bytes} (h : payload.length < w.maxStringSize)
    (out : OutstandingCall) (id : CallId) :
    asked w (RpcChannel.requestMessage (stubArgs w payload out) id) =
      .ok (EchoMessage.new.setPayload payload) := by
  have hservice : (RpcChannel.requestMessage (stubArgs w payload out) id).getService =
      fullName := rfl
  have hmethod : (RpcChannel.requestMessage (stubArgs w payload out) id).getMethod =
      methodName := rfl
  have hparse : (EchoRequest.prototype w).parseFromString
      (RpcChannel.requestMessage (stubArgs w payload out) id).getRequest =
      (true, EchoMessage.new.setPayload payload) := EchoRequest.parse_serialize h
  simp only [asked, hservice, hmethod, hparse, ne_eq, not_true_eq_false, if_false, if_true]

/-- Whatever the server has sent returns the payload of the call that it names. -/
lemma echoes_of_sent (h : Echoing w clientId serverId s) (hw : Within w s)
    (hm : m ∈ s.server.sent) : m.error = none ∧ ∃ bytes, m.response = some bytes ∧
      ∃ call ∈ s.client.calls, call.id = m.id ∧ Echoes w call bytes := by
  obtain ⟨call, hcall, hreply⟩ := reply_of_sent h.balanced hm
  obtain ⟨payload, out, hargs⟩ := h.stub call hcall
  have hfits : payload.length < w.maxStringSize :=
    hw.fits call hcall payload (by rw [hargs]; rfl)
  have hanswers := answers_of_reply h.answered hreply
  rw [Answers, hargs, asked_stub hfits] at hanswers
  obtain ⟨herror, bytes, payload', hbytes, hpayload, hparse⟩ := hanswers
  obtain rfl := Option.some.inj hpayload
  refine ⟨herror, bytes, hbytes, call, hcall, (Endpoint.reply_fields hreply).1.symm, ?_⟩
  rw [Echoes, hparse, hargs]
  rfl

/-- The object that the loop thread is about to fill is that of the call. -/
lemma echoes_of_taken (h : Echoing w clientId serverId s) (hw : Within w s)
    {out : OutstandingCall} (hframe : s.client.frame = some (.taken out m)) {r : ℕ} {bytes : Bytes}
    (hparse : Action.parse r bytes ∈ RpcChannel.complete out m) :
    ∃ call ∈ s.client.calls, call.args.out.response = some r ∧ Echoes w call bytes := by
  have hreceived := h.balanced.wire.inHand out m (Or.inl hframe)
  obtain ⟨-, bytes', hbytes, call, hcall, hid, hechoes⟩ :=
    echoes_of_sent h hw (h.balanced.wire.clientReceived.subset hreceived)
  obtain ⟨answers, hledger⟩ := h.balanced.ledger
  have hout : call.args.out = out := by
    refine out_of_call hledger hw.calls hcall (Or.inr ?_)
    rw [hframe, hid]
    exact List.mem_singleton_self _
  unfold RpcChannel.complete at hparse
  cases hresponse : out.response with
  | none => simp [hresponse] at hparse
  | some r' =>
    simp only [hresponse, hbytes, Option.map_some, Option.toList_some, List.mem_append,
      List.mem_singleton, Action.parse.injEq, Option.mem_toList, Option.map_eq_some_iff,
      reduceCtorEq, and_false, exists_false, or_false] at hparse
    obtain ⟨rfl, rfl⟩ := hparse
    exact ⟨call, hcall, by rw [hout, hresponse], hechoes⟩

end Replies

section Steps

lemma Within.of_prefix (h : s.client.calls <+: t.client.calls) (hw : Within w t) : Within w s where
  calls := h.length_le.trans_lt hw.calls
  fits := fun call hcall => hw.fits call (h.subset hcall)

lemma echoing_initial : Echoing w clientId serverId (initial w clientId serverId) where
  balanced := ⟨⟨[], Endpoint.ledger_initial (RpcChannel.new clientId none) rfl⟩,
    ⟨[], Endpoint.served_initial _⟩, wire_initial clientId serverId _⟩
  stub := by simp [initial, RpcConnection.initial, Endpoint.initial]
  answered := by simp [initial, RpcConnection.initial, Endpoint.initial]
  log := by simp [initial, RpcConnection.initial, Endpoint.initial]

lemma echoing_client (h : Echoing w clientId serverId s) (hw : Within w s)
    {e : Endpoint.Event (EchoMessage υ)} {client : Endpoint (EchoMessage υ)}
    (hstep : Endpoint.step s.client e = some client)
    (hbalanced : Balanced clientId (channel w serverId) { s with client := client })
    (hstub : ∀ args, e = .begin args → ∃ payload out, args = stubArgs w payload out) :
    Echoing w clientId serverId { s with client := client } := by
  have hgrown : ∀ {r bytes}, (∃ call ∈ s.client.calls, call.args.out.response = some r ∧
      Echoes w call bytes) → ∃ call ∈ client.calls, call.args.out.response = some r ∧
        Echoes w call bytes := by
    rintro r bytes ⟨call, hcall, hcalled⟩
    exact ⟨call, (Endpoint.calls_step hstep).subset hcall, hcalled⟩
  refine ⟨hbalanced, ?_, h.answered, ?_⟩
  · intro call hcall
    cases recorded_step hstep with
    | kept calls | taken _ calls | finished _ calls | done _ _ calls =>
      exact h.stub call (calls ▸ hcall)
    | begin new calls =>
      rcases List.mem_append.mp (calls ▸ hcall) with hold | hnew
      · exact h.stub call hold
      · rw [List.mem_singleton.mp hnew]
        exact hstub new.args rfl
  · intro r bytes hparse
    refine hgrown ?_
    cases recorded_step hstep with
    | kept _ _ log | begin _ _ _ log | done _ _ _ _ log => exact h.log r bytes (log ▸ hparse)
    | taken hframe _ _ log =>
      rcases List.mem_append.mp (log ▸ hparse) with hold | hnew
      · exact h.log r bytes hold
      · exact echoes_of_taken h hw hframe hnew
    | finished response _ _ log =>
      rcases List.mem_append.mp (log ▸ hparse) with hold | hnew
      · exact h.log r bytes hold
      · simp at hnew

lemma echoing_server (h : Echoing w clientId serverId s) {e : Endpoint.Event (EchoMessage υ)}
    {server : Endpoint (EchoMessage υ)} (hstep : Endpoint.step s.server e = some server)
    (hbalanced : Balanced clientId (channel w serverId) { s with server := server })
    (hecho : ∀ k v p, e = .runDone k v → s.server.pending[k]? = some p →
      v = Echo p.target.request) :
    Echoing w clientId serverId { s with server := server } :=
  ⟨hbalanced, h.stub, echoed_step h.answered hstep hecho, h.log⟩

lemma echoing_step (h : Echoing w clientId serverId s) {e : Event} (hstep : step w s e = some t)
    (hw : Within w t) : Echoing w clientId serverId t := by
  obtain ⟨e', he, hstep⟩ := Option.bind_eq_some_iff.mp hstep
  have hws := hw.of_prefix (client_calls_step hstep)
  have hbalanced := balanced_step h.balanced hws.calls hstep
  cases e with
  | call payload out =>
    obtain rfl := Option.some.inj he
    obtain ⟨client, hclient, rfl⟩ := clientStep_eq_some.mp hstep
    refine echoing_client h hws hclient hbalanced ?_
    intro args hargs
    cases hargs
    exact ⟨payload, out, rfl⟩
  | register k | send k | clientResume =>
    obtain rfl := Option.some.inj he
    obtain ⟨client, hclient, rfl⟩ := clientStep_eq_some.mp hstep
    exact echoing_client h hws hclient hbalanced (by simp)
  | clientReceive =>
    obtain rfl := Option.some.inj he
    obtain ⟨m, -, hstep⟩ := Option.bind_eq_some_iff.mp hstep
    obtain ⟨client, hclient, rfl⟩ := clientStep_eq_some.mp hstep
    exact echoing_client h hws hclient hbalanced (by simp)
  | serverReceive =>
    obtain rfl := Option.some.inj he
    obtain ⟨m, -, hstep⟩ := Option.bind_eq_some_iff.mp hstep
    obtain ⟨server, hserver, rfl⟩ := serverStep_eq_some.mp hstep
    exact echoing_server h hserver hbalanced (by simp)
  | serverResume =>
    obtain rfl := Option.some.inj he
    obtain ⟨server, hserver, rfl⟩ := serverStep_eq_some.mp hstep
    exact echoing_server h hserver hbalanced (by simp)
  | echo k =>
    obtain ⟨p, hpending, rfl⟩ := Option.map_eq_some_iff.mp he
    obtain ⟨server, hserver, rfl⟩ := serverStep_eq_some.mp hstep
    refine echoing_server h hserver hbalanced ?_
    intro k' v p' hdone hpending'
    cases hdone
    rw [hpending] at hpending'
    rw [Option.some.inj hpending']

lemma echoing_run {es : List Event} (hrun : run (step w) (initial w clientId serverId) es = some s)
    (hw : Within w s) : Echoing w clientId serverId s := by
  have hinv : Within w s → Echoing w clientId serverId s := by
    refine run_invariant (P := fun s => Within w s → Echoing w clientId serverId s) ?_
      (fun _ => echoing_initial) hrun
    intro s e t hs hstep ht
    obtain ⟨e', -, hmoved⟩ := Option.bind_eq_some_iff.mp hstep
    exact echoing_step (hs (ht.of_prefix (client_calls_step hmoved))) hstep ht
  exact hinv hw

end Steps

/-- In every run in which the wire format can carry the payloads, with fewer than `2 ^ 64` calls:
no reply of the server has an error, each is a response with the payload of the request of the
call that it names, and whatever was parsed into the response object of a caller is a response
with the payload of that caller. -/
theorem calls_echoed (w : WireFormat υ) (clientId serverId : CallId) {es : List Event}
    {s : RpcConnection (EchoMessage υ)}
    (hrun : run (step w) (initial w clientId serverId) es = some s)
    (hcalls : s.client.calls.length < 2 ^ 64)
    (hfits : ∀ call ∈ s.client.calls, call.args.request.Fits w) :
    (∀ m ∈ s.server.sent, m.error = none ∧ ∃ bytes, m.response = some bytes ∧
      ∃ call ∈ s.client.calls, call.id = m.id ∧ Echoes w call bytes) ∧
    ∀ r bytes, Action.parse r bytes ∈ s.client.log →
      ∃ call ∈ s.client.calls, call.args.out.response = some r ∧ Echoes w call bytes := by
  have hw : Within w s := ⟨hcalls, hfits⟩
  have hechoing := echoing_run hrun hw
  exact ⟨fun m hm => echoes_of_sent hechoing hw hm, hechoing.log⟩

/-- Two calls, of which the second is sent first; its reply has been handled. -/
def twoCalls : List Event :=
  [.call [48, 48, 49, 48, 49, 48] ⟨some 0, some 10⟩, .call [65] ⟨some 1, some 11⟩, .register 1,
    .register 0, .send 0, .serverReceive, .send 0, .echo 0, .serverResume, .serverReceive,
    .clientReceive, .clientResume, .clientResume]

theorem calls_echoed_twoCalls : ∃ s,
    run (step ProtobufWire.wireFormat) (initial ProtobufWire.wireFormat 0 9) twoCalls = some s ∧
      s.client.log = [.parse 1 [18, 1, 65], .run 11, .release 1] ∧
      ∃ call ∈ s.client.calls, call.args.out.response = some 1 ∧
        Echoes ProtobufWire.wireFormat call [18, 1, 65] := by
  obtain ⟨s, hs, hseen⟩ := Option.map_eq_some_iff.mp (show
    (run (step ProtobufWire.wireFormat) (initial ProtobufWire.wireFormat 0 9) twoCalls).map
      (fun s => (s.client.log, s.client.calls.map fun call => call.args.request.payload)) =
      some ([.parse 1 [18, 1, 65], .run 11, .release 1],
        [some [48, 48, 49, 48, 49, 48], some [65]]) by decide +kernel)
  obtain ⟨hlog, hpayloads⟩ := Prod.mk.inj hseen
  have hlength := congrArg List.length hpayloads
  rw [List.length_map] at hlength
  have hfits : ∀ call ∈ s.client.calls, call.args.request.Fits ProtobufWire.wireFormat := by
    intro call hcall payload hpayload
    have hmem := List.mem_map_of_mem (f := fun call => call.args.request.payload) hcall
    rw [hpayloads, hpayload] at hmem
    simp only [List.mem_cons, Option.some.injEq, List.not_mem_nil, or_false] at hmem
    rcases hmem with rfl | rfl <;> decide
  have hechoed := calls_echoed ProtobufWire.wireFormat 0 9 hs (by rw [hlength]; decide) hfits
  exact ⟨s, hs, hlog, hechoed.2 1 [18, 1, 65] (by rw [hlog]; exact List.mem_cons_self)⟩

end RpcMuduo.EchoService
