import RpcMuduo.CallLedger
import RpcMuduo.ServerReplies

/-!
# A client and a server on one connection

Two endpoints and what is on the wire between them. The connection delivers in order, so what
one end received is a prefix of what the other sent.
-/
namespace RpcMuduo
open RpcMeta Run

structure RpcConnection (M : Type*) where
  client : Endpoint M
  server : Endpoint M

namespace RpcConnection

/-- The steps of the threads that call, of the two loop threads and of the services. The client
offers no services and the services of the server make no calls on the connection. -/
inductive Event (M : Type*)
  | begin (args : CallArgs M)
  | register (k : ℕ)
  | send (k : ℕ)
  | serverReceive
  | serverResume
  | runDone (k : ℕ) (response : M)
  | clientReceive
  | clientResume

variable {M : Type*}

def toServer (s : RpcConnection M) : List RpcMetaMessage :=
  s.client.sent.drop s.server.received.length

def toClient (s : RpcConnection M) : List RpcMetaMessage :=
  s.server.sent.drop s.client.received.length

/-- One constructor starts `_id` at 0, the other leaves it as the memory had it; the client has
no services. -/
def initial (clientId serverId : CallId) (services : List (Service M)) : RpcConnection M where
  client := Endpoint.initial (RpcChannel.new clientId none)
  server := Endpoint.initial (RpcChannel.new serverId (some (registerServices services)))

def clientStep (s : RpcConnection M) (e : Endpoint.Event M) : Option (RpcConnection M) :=
  (Endpoint.step s.client e).map fun client => { s with client := client }

def serverStep (s : RpcConnection M) (e : Endpoint.Event M) : Option (RpcConnection M) :=
  (Endpoint.step s.server e).map fun server => { s with server := server }

@[grind =] def step (s : RpcConnection M) : Event M → Option (RpcConnection M)
  | .begin args => s.clientStep (.begin args)
  | .register k => s.clientStep (.register k)
  | .send k => s.clientStep (.send k)
  | .serverReceive => s.toServer.head?.bind fun message => s.serverStep (.receive message)
  | .serverResume => s.serverStep .resume
  | .runDone k response => s.serverStep (.runDone k response)
  | .clientReceive => s.toClient.head?.bind fun message => s.clientStep (.receive message)
  | .clientResume => s.clientStep .resume

lemma clientStep_eq_some {s t : RpcConnection M} {e : Endpoint.Event M} :
    s.clientStep e = some t ↔
      ∃ client, Endpoint.step s.client e = some client ∧ { s with client := client } = t :=
  Option.map_eq_some_iff

lemma serverStep_eq_some {s t : RpcConnection M} {e : Endpoint.Event M} :
    s.serverStep e = some t ↔
      ∃ server, Endpoint.step s.server e = some server ∧ { s with server := server } = t :=
  Option.map_eq_some_iff

/-- The ids of calls that are registered and not yet completed, by where they are. -/
def openIds (s : RpcConnection M) : Multiset CallId :=
  ↑(s.client.registered.map Call.id) + ↑(s.toServer.map RpcMetaMessage.id) +
    ↑(s.server.pending.map PendingDone.id) + ↑(s.toClient.map RpcMetaMessage.id)

structure Wire (s : RpcConnection M) : Prop where
  unsent : ∀ call ∈ s.client.started ++ s.client.registered, call ∈ s.client.calls
  requests : ∀ m ∈ s.client.sent, ∃ call ∈ s.client.calls,
    m = RpcChannel.requestMessage call.args call.id
  replies : ∀ m ∈ s.server.sent, m.type = .RESPONSE
  serverReceived : s.server.received <+: s.client.sent
  clientReceived : s.client.received <+: s.server.sent
  inHand : ∀ out m, s.client.frame = some (.taken out m) ∨
    s.client.frame = some (.finishing out m) → m ∈ s.client.received
  open_eq : s.openIds = ↑s.client.channel.outstandings.keys

section Steps

variable {s : RpcConnection M}

lemma drop_concat {α : Type*} {l : List α} {k : ℕ} (h : k ≤ l.length) (a : α) :
    (l ++ [a]).drop k = l.drop k ++ [a] :=
  List.drop_append_of_le_length h

lemma drop_head {α : Type*} {l : List α} {k : ℕ} {a : α} (h : (l.drop k).head? = some a) :
    l.drop k = a :: l.drop (k + 1) ∧ k < l.length := by
  rw [List.head?_drop, List.getElem?_eq_some_iff] at h
  obtain ⟨hk, rfl⟩ := h
  exact ⟨List.drop_eq_getElem_cons hk, hk⟩

lemma prefix_concat {α : Type*} {l₁ l₂ : List α} {a : α} (h : l₁ <+: l₂)
    (ha : (l₂.drop l₁.length).head? = some a) : l₁ ++ [a] <+: l₂ := by
  obtain ⟨l, rfl⟩ := h
  rw [List.drop_left] at ha
  cases l with
  | nil => simp at ha
  | cons b l =>
    rw [List.head?_cons, Option.some.injEq] at ha
    exact ⟨l, by simp [ha]⟩

lemma wire_initial (clientId serverId : CallId) (services : List (Service M)) :
    Wire (initial clientId serverId services) where
  unsent := by simp [initial, Endpoint.initial]
  requests := by simp [initial, Endpoint.initial]
  replies := by simp [initial, Endpoint.initial]
  serverReceived := List.prefix_refl _
  clientReceived := List.prefix_refl _
  inHand := by simp [initial, Endpoint.initial]
  open_eq := rfl

lemma wire_begin (h : Wire s) (args : CallArgs M) :
    Wire { s with client := s.client.beginCall args } where
  unsent := by
    intro call hc
    simp only [Endpoint.beginCall, List.mem_append, List.mem_singleton] at hc ⊢
    rcases hc with (hc | hc) | hc
    · exact Or.inl (h.unsent call (List.mem_append_left _ hc))
    · exact Or.inr hc
    · exact Or.inl (h.unsent call (List.mem_append_right _ hc))
  requests := by
    intro m hm
    obtain ⟨call, hc, rfl⟩ := h.requests m hm
    exact ⟨call, List.mem_append_left _ hc, rfl⟩
  replies := h.replies
  serverReceived := h.serverReceived
  clientReceived := h.clientReceived
  inHand := h.inHand
  open_eq := h.open_eq

lemma wire_register (h : Wire s) {k : ℕ} {call : Call M} (hk : s.client.started[k]? = some call)
    (hfresh : call.id ∉ s.client.channel.outstandings) :
    Wire { s with client := s.client.registerCall k call } where
  unsent := by
    intro c hc
    simp only [Endpoint.registerCall, List.mem_append, List.mem_singleton] at hc
    rcases hc with hc | hc | hc
    · exact h.unsent c (List.mem_append_left _ (List.mem_of_mem_eraseIdx hc))
    · exact h.unsent c (List.mem_append_right _ hc)
    · exact h.unsent c (List.mem_append_left _ (hc ▸ List.mem_of_getElem? hk))
  requests := h.requests
  replies := h.replies
  serverReceived := h.serverReceived
  clientReceived := h.clientReceived
  inHand := h.inHand
  open_eq := by
    have hkeys : (s.client.channel.outstandings.insert call.id call.args.out).keys =
        call.id :: s.client.channel.outstandings.keys := by
      rw [AList.keys_insert, List.erase_of_not_mem hfresh]
    have hopen := h.open_eq
    simp only [openIds, toServer, toClient] at hopen
    simp only [openIds, toServer, toClient, Endpoint.registerCall, RpcChannel.registerCall, hkeys,
      List.map_append, List.map_singleton, Bag.coe_concat, ← Multiset.cons_coe, ← hopen,
      ← Multiset.singleton_add]
    abel

lemma wire_send (h : Wire s) {k : ℕ} {call : Call M}
    (hk : s.client.registered[k]? = some call) :
    Wire { s with client := s.client.sendCall k call } where
  unsent := by
    intro c hc
    simp only [Endpoint.sendCall, List.mem_append] at hc
    rcases hc with hc | hc
    · exact h.unsent c (List.mem_append_left _ hc)
    · exact h.unsent c (List.mem_append_right _ (List.mem_of_mem_eraseIdx hc))
  requests := by
    intro m hm
    rcases List.mem_append.mp hm with hm | hm
    · exact h.requests m hm
    · exact ⟨call, h.unsent call (List.mem_append_right _ (List.mem_of_getElem? hk)),
        List.mem_singleton.mp hm⟩
  replies := h.replies
  serverReceived := h.serverReceived.trans (List.prefix_append _ _)
  clientReceived := h.clientReceived
  inHand := h.inHand
  open_eq := by
    have hopen := h.open_eq
    simp only [openIds, toServer, toClient, Bag.map_eraseIdx hk Call.id] at hopen
    simp only [openIds, toServer, toClient, Endpoint.sendCall,
      drop_concat h.serverReceived.length_le, List.map_append, List.map_singleton,
      Bag.coe_concat, ← hopen]
    rw [RpcChannel.requestMessage]
    abel

/-- A request moves from the wire to a service, or its error reply goes onto the way back. -/
lemma wire_serverReceive (h : Wire s) {m : RpcMetaMessage} (hm : s.toServer.head? = some m) :
    Wire { s with server := s.server.onRpcMessage m } := by
  obtain ⟨hdrop, hlt⟩ := drop_head hm
  have hmem : m ∈ s.client.sent := List.mem_of_mem_drop (hdrop ▸ List.mem_cons_self)
  obtain ⟨call, -, hrequest⟩ := h.requests m hmem
  have htype : m.type = .REQUEST := by rw [hrequest, RpcChannel.requestMessage]
  have hopen := h.open_eq
  simp only [openIds, toServer, toClient, hdrop, List.map_cons] at hopen
  rw [Endpoint.onRpcMessage, htype]
  simp only [Endpoint.onRequest]
  cases s.server.channel.dispatch m with
  | ok target =>
    refine ⟨h.unsent, h.requests, h.replies, prefix_concat h.serverReceived hm,
      h.clientReceived, h.inHand, ?_⟩
    simp only [openIds, toServer, toClient, List.length_append, List.length_singleton,
      List.map_append, List.map_singleton, Bag.coe_concat, ← hopen, ← Multiset.cons_coe,
      ← Multiset.singleton_add]
    abel
  | error error =>
    refine ⟨h.unsent, h.requests, ?_, prefix_concat h.serverReceived hm,
      h.clientReceived.trans (List.prefix_append _ _), h.inHand, ?_⟩
    · intro reply hreply
      rcases List.mem_append.mp hreply with hreply | hreply
      · exact h.replies reply hreply
      · rw [List.mem_singleton.mp hreply]
        rfl
    · simp only [openIds, toServer, toClient, List.length_append, List.length_singleton,
        drop_concat h.clientReceived.length_le, List.map_append, List.map_singleton,
        Bag.coe_concat, ← hopen, ← Multiset.cons_coe, ← Multiset.singleton_add,
        RpcChannel.errorReply, RpcMetaMessage.ofId]
      abel

lemma wire_runDone (h : Wire s) {k : ℕ} {p : PendingDone M} (hk : s.server.pending[k]? = some p)
    (response : M) : Wire { s with server := s.server.doneCallback k p response } where
  unsent := h.unsent
  requests := h.requests
  replies := by
    intro reply hreply
    rcases List.mem_append.mp hreply with hreply | hreply
    · exact h.replies reply hreply
    · rw [List.mem_singleton.mp hreply]
      rfl
  serverReceived := h.serverReceived
  clientReceived := h.clientReceived.trans (List.prefix_append _ _)
  inHand := h.inHand
  open_eq := by
    have hopen := h.open_eq
    simp only [openIds, toServer, toClient, Bag.map_eraseIdx hk PendingDone.id] at hopen
    simp only [openIds, toServer, toClient, Endpoint.doneCallback,
      drop_concat h.clientReceived.length_le, List.map_append, List.map_singleton,
      Bag.coe_concat, ← hopen, RpcChannel.doneCallback, RpcMetaMessage.ofId]
    abel

/-- The reply at the head of the wire names an outstanding call. -/
lemma toClient_outstanding (h : Wire s) {m : RpcMetaMessage} (hm : m ∈ s.toClient) :
    m.id ∈ s.client.channel.outstandings := by
  have hopen : m.id ∈ s.openIds :=
    Multiset.mem_add.mpr (Or.inr (List.mem_map_of_mem hm))
  rw [h.open_eq] at hopen
  exact hopen

lemma toClient_response (h : Wire s) {m : RpcMetaMessage} (hm : m ∈ s.toClient) :
    m.type = .RESPONSE :=
  h.replies m (List.mem_of_mem_drop hm)

lemma wire_clientReceive (h : Wire s) {m : RpcMetaMessage} (hm : s.toClient.head? = some m) :
    Wire { s with client := s.client.onRpcMessage m } := by
  obtain ⟨hdrop, hlt⟩ := drop_head hm
  have hmem : m ∈ s.toClient := List.mem_of_mem_head? hm
  have htype := toClient_response h hmem
  have hin := toClient_outstanding h hmem
  obtain ⟨out, hout⟩ := Option.isSome_iff_exists.mp (AList.lookup_isSome.mpr hin)
  have hopen := h.open_eq
  simp only [openIds, toServer, toClient, hdrop, List.map_cons] at hopen
  have hrest : (↑(s.client.registered.map Call.id) +
      ↑((s.client.sent.drop s.server.received.length).map RpcMetaMessage.id) +
      ↑(s.server.pending.map PendingDone.id) +
      ↑((s.server.sent.drop (s.client.received.length + 1)).map RpcMetaMessage.id) :
        Multiset CallId) = ↑(s.client.channel.outstandings.erase m.id).keys := by
    rw [Bag.keys_erase hin, ← Multiset.cons_coe, ← Multiset.singleton_add,
      add_comm ({m.id} : Multiset CallId), ← add_assoc] at hopen
    exact add_right_cancel hopen
  rw [Endpoint.onRpcMessage, htype]
  cases hr : out.response with
  | none =>
    simp only [Endpoint.onResponse_null hout hr]
    refine ⟨h.unsent, h.requests, h.replies, h.serverReceived,
      prefix_concat h.clientReceived hm, by simp, ?_⟩
    simpa only [openIds, toServer, toClient, List.length_append, List.length_singleton] using hrest
  | some response =>
    simp only [Endpoint.onResponse_found hout hr]
    refine ⟨h.unsent, h.requests, h.replies, h.serverReceived,
      prefix_concat h.clientReceived hm, ?_, ?_⟩
    · intro out' m' hframe
      simp only [Option.some.injEq, Frame.taken.injEq, reduceCtorEq, or_false] at hframe
      exact List.mem_append_right _ (List.mem_singleton.mpr hframe.2.symm)
    · simpa only [openIds, toServer, toClient, List.length_append, List.length_singleton]
        using hrest

lemma wire_clientResume (h : Wire s) {frame : Frame} (hframe : s.client.frame = some frame) :
    Wire { s with client := s.client.resumeFrame frame } := by
  cases frame with
  | serving =>
    exact ⟨h.unsent, h.requests, h.replies, h.serverReceived, h.clientReceived,
      by simp [Endpoint.resumeFrame], h.open_eq⟩
  | taken out m =>
    refine ⟨h.unsent, h.requests, h.replies, h.serverReceived, h.clientReceived, ?_, h.open_eq⟩
    intro out' m' hfin
    simp only [Endpoint.resumeFrame, Option.some.injEq, Frame.finishing.injEq, reduceCtorEq,
      false_or] at hfin
    exact hfin.2 ▸ h.inHand out m (Or.inl hframe)
  | finishing out m =>
    exact ⟨h.unsent, h.requests, h.replies, h.serverReceived, h.clientReceived,
      by simp [Endpoint.resumeFrame], h.open_eq⟩

lemma wire_serverResume (h : Wire s) (frame : Frame) :
    Wire { s with server := s.server.resumeFrame frame } := by
  cases frame <;> exact ⟨h.unsent, h.requests, h.replies, h.serverReceived, h.clientReceived,
    h.inHand, h.open_eq⟩

end Steps

/-- The invariants of the two ends and of what is between them. -/
structure Balanced (clientId : CallId) (channel : RpcChannel M) (s : RpcConnection M) : Prop where
  ledger : ∃ answers, Endpoint.Ledger clientId s.client answers
  served : ∃ served, Endpoint.Served channel s.server served
  wire : Wire s

section Run

variable {clientId : CallId} {channel : RpcChannel M} {s t : RpcConnection M}

lemma balanced_client (h : Balanced clientId channel s) (hn : s.client.calls.length < 2 ^ 64)
    {e : Endpoint.Event M} {client : Endpoint M} (hstep : Endpoint.step s.client e = some client)
    (hwire : Wire { s with client := client }) :
    Balanced clientId channel { s with client := client } := by
  obtain ⟨answers, hl⟩ := h.ledger
  exact ⟨Endpoint.ledger_step hl hn hstep, h.served, hwire⟩

lemma balanced_server (h : Balanced clientId channel s) {e : Endpoint.Event M}
    {server : Endpoint M} (hstep : Endpoint.step s.server e = some server)
    (hwire : Wire { s with server := server }) :
    Balanced clientId channel { s with server := server } := by
  obtain ⟨served, hs⟩ := h.served
  exact ⟨h.ledger, Endpoint.served_step hs hstep, hwire⟩

lemma balanced_step (h : Balanced clientId channel s) (hn : s.client.calls.length < 2 ^ 64)
    {e : Event M} (hstep : step s e = some t) : Balanced clientId channel t := by
  cases e with
  | begin args =>
    obtain ⟨client, hc, rfl⟩ := clientStep_eq_some.mp hstep
    refine balanced_client h hn hc ?_
    simp only [Endpoint.step, Option.some.injEq] at hc
    exact hc ▸ wire_begin h.wire args
  | register k =>
    obtain ⟨client, hc, rfl⟩ := clientStep_eq_some.mp hstep
    refine balanced_client h hn hc ?_
    obtain ⟨call, hk, rfl⟩ := Option.map_eq_some_iff.mp hc
    obtain ⟨answers, hl⟩ := h.ledger
    exact wire_register h.wire hk (hl.started_not_outstanding hn (List.mem_of_getElem? hk))
  | send k =>
    obtain ⟨client, hc, rfl⟩ := clientStep_eq_some.mp hstep
    refine balanced_client h hn hc ?_
    obtain ⟨call, hk, rfl⟩ := Option.map_eq_some_iff.mp hc
    exact wire_send h.wire hk
  | serverReceive =>
    obtain ⟨m, hm, hstep⟩ := Option.bind_eq_some_iff.mp hstep
    obtain ⟨server, hserver, rfl⟩ := serverStep_eq_some.mp hstep
    refine balanced_server h hserver ?_
    simp only [Endpoint.step, Option.ite_none_right_eq_some, Option.some.injEq] at hserver
    exact hserver.2 ▸ wire_serverReceive h.wire hm
  | serverResume =>
    obtain ⟨server, hserver, rfl⟩ := serverStep_eq_some.mp hstep
    refine balanced_server h hserver ?_
    obtain ⟨frame, -, rfl⟩ := Option.map_eq_some_iff.mp hserver
    exact wire_serverResume h.wire frame
  | runDone k response =>
    obtain ⟨server, hserver, rfl⟩ := serverStep_eq_some.mp hstep
    refine balanced_server h hserver ?_
    obtain ⟨p, hk, rfl⟩ := Option.map_eq_some_iff.mp hserver
    exact wire_runDone h.wire hk response
  | clientReceive =>
    obtain ⟨m, hm, hstep⟩ := Option.bind_eq_some_iff.mp hstep
    obtain ⟨client, hc, rfl⟩ := clientStep_eq_some.mp hstep
    refine balanced_client h hn hc ?_
    simp only [Endpoint.step, Option.ite_none_right_eq_some, Option.some.injEq] at hc
    exact hc.2 ▸ wire_clientReceive h.wire hm
  | clientResume =>
    obtain ⟨client, hc, rfl⟩ := clientStep_eq_some.mp hstep
    refine balanced_client h hn hc ?_
    obtain ⟨frame, hframe, rfl⟩ := Option.map_eq_some_iff.mp hc
    exact wire_clientResume h.wire hframe

lemma client_calls_step {e : Event M} (hstep : step s e = some t) :
    s.client.calls <+: t.client.calls := by
  cases e with
  | begin args | register k | send k | clientResume =>
    obtain ⟨client, hc, rfl⟩ := clientStep_eq_some.mp hstep
    exact Endpoint.calls_step hc
  | clientReceive =>
    obtain ⟨m, -, hstep⟩ := Option.bind_eq_some_iff.mp hstep
    obtain ⟨client, hc, rfl⟩ := clientStep_eq_some.mp hstep
    exact Endpoint.calls_step hc
  | serverReceive =>
    obtain ⟨m, -, hstep⟩ := Option.bind_eq_some_iff.mp hstep
    obtain ⟨server, -, rfl⟩ := serverStep_eq_some.mp hstep
    exact List.prefix_refl _
  | serverResume | runDone k response =>
    obtain ⟨server, -, rfl⟩ := serverStep_eq_some.mp hstep
    exact List.prefix_refl _

/-- Along a run of fewer than `2 ^ 64` calls the invariants hold. -/
theorem balanced_run {serverId : CallId} {services : List (Service M)} {es : List (Event M)}
    (h : run step (initial clientId serverId services) es = some s)
    (hn : s.client.calls.length < 2 ^ 64) :
    Balanced clientId (RpcChannel.new serverId (some (registerServices services))) s := by
  have hinv : s.client.calls.length < 2 ^ 64 →
      Balanced clientId (RpcChannel.new serverId (some (registerServices services))) s := by
    refine run_invariant (P := fun s : RpcConnection M => s.client.calls.length < 2 ^ 64 →
      Balanced clientId (RpcChannel.new serverId (some (registerServices services))) s) ?_ ?_ h
    · intro s e t hs hstep ht
      have hle := (client_calls_step hstep).length_le
      exact balanced_step (hs (by omega)) (by omega) hstep
    · intro _
      exact ⟨⟨[], Endpoint.ledger_initial (RpcChannel.new clientId none) rfl⟩,
        ⟨[], Endpoint.served_initial _⟩,
        wire_initial clientId serverId services⟩
  exact hinv hn

end Run

end RpcConnection

end RpcMuduo
