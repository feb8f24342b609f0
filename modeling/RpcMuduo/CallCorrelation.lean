import RpcMuduo.RpcConnection

/-!
# Correlation of calls and replies

A reply completes the call whose request it answers: on the wire, in the hands of a service and
on the way back an id belongs to one outstanding call, and the server echoes it.
-/
namespace RpcMuduo.RpcConnection
open RpcMeta Run Endpoint

variable {M : Type*}

/-- The service ran the closure `p` on the response `v`: `p` was made for the request of this
very call, dispatched to the service and the method that the caller named. -/
structure AnswerOf (services : List (Service M)) (s : RpcConnection M) (call : Call M)
    (bytes : Bytes) (p : PendingDone M) (v : M) : Prop where
  answered : (p, v) ∈ s.server.answered
  message : p.message = RpcChannel.requestMessage call.args call.id
  registered : p.target.service ∈ services
  fullName : p.target.service.fullName = call.args.method.service
  method : p.target.method ∈ p.target.service.methods
  name : p.target.method.name = call.args.method.name
  request : p.target.request = (p.target.method.requestPrototype.parseFromString
    (call.args.method.requestPrototype.serializeAsString call.args.request)).2
  bytes : bytes = p.target.method.responsePrototype.serializeAsString v

section Dispatch

variable {channel : RpcChannel M} {request : RpcMetaMessage} {target : Dispatch M}

lemma dispatch_eq_ok (h : channel.dispatch request = .ok target) :
    Registered channel request target.service ∧
      target.service.findMethodByName request.getMethod = some target.method ∧
      target.request = (target.method.requestPrototype.parseFromString request.getRequest).2 := by
  have herror : errorOf (channel.dispatch request) = none := by
    rw [h]
    rfl
  cases expected_iff.mpr herror with
  | served hs hm hp =>
    obtain ⟨services, hservices, hl⟩ := hs
    simp only [RpcChannel.dispatch, hservices, hl, hm, hp, ↓reduceIte, Except.ok.injEq] at h
    subst h
    exact ⟨⟨services, hservices, hl⟩, hm, rfl⟩

lemma findMethodByName_eq_some {service : Service M} {name : Bytes} {method : MethodDescriptor M}
    (h : service.findMethodByName name = some method) :
    method ∈ service.methods ∧ method.name = name := by
  refine ⟨List.mem_of_find?_eq_some h, ?_⟩
  simpa using List.find?_some h

lemma registered_eq {id : CallId} {services : List (Service M)} {service : Service M}
    (h : Registered (RpcChannel.new id (some (registerServices services))) request service) :
    service ∈ services ∧ service.fullName = request.getService := by
  obtain ⟨table, htable, hl⟩ := h
  rw [← Option.some.inj htable, lookup_registerServices] at hl
  refine ⟨List.mem_reverse.mp (List.mem_of_find?_eq_some hl), ?_⟩
  simpa using List.find?_some hl

end Dispatch

section Entries

variable {id : CallId} {c : Endpoint M} {answers : List Answer}

/-- Outstanding entries and the one in hand are entries of calls. -/
lemma entry_of_call (h : Ledger id c answers) {entry : Entry}
    (hmem : entry ∈ c.channel.outstandings.entries ∨ entry ∈ inHand c.frame) :
    ∃ call ∈ c.calls, call.entry = entry := by
  have hall : entry ∈ (↑(c.calls.map Call.entry) : Multiset Entry) := by
    rw [h.entries]
    simp only [Multiset.mem_add, Multiset.mem_coe]
    rcases hmem with hmem | hmem
    · exact Or.inl (Or.inl (Or.inr hmem))
    · exact Or.inl (Or.inr hmem)
  exact List.mem_map.mp hall

lemma calls_ids_nodup (h : Ledger id c answers) (hn : c.calls.length < 2 ^ 64) :
    (c.calls.map Call.id).Nodup :=
  h.ids ▸ issued_nodup id hn

/-- The call of an id has the pointers of the entry of that id. -/
lemma out_of_call (h : Ledger id c answers) (hn : c.calls.length < 2 ^ 64) {call : Call M}
    (hc : call ∈ c.calls) {out : OutstandingCall}
    (hmem : ⟨call.id, out⟩ ∈ c.channel.outstandings.entries ∨ ⟨call.id, out⟩ ∈ inHand c.frame) :
    call.args.out = out := by
  obtain ⟨call', hc', hentry⟩ := entry_of_call h hmem
  have hid : call'.id = call.id := congrArg Sigma.fst hentry
  have heq := List.inj_on_of_nodup_map (calls_ids_nodup h hn) hc' hc hid
  subst heq
  exact eq_of_heq (Sigma.mk.inj hentry).2

end Entries

section Runs

variable (d : ℕ)

/-- The closure of the entry is `d`. -/
def isDone (out : OutstandingCall) : Bool := out.done == some d

lemma count_run_complete (out : OutstandingCall) (message : RpcMetaMessage) :
    (RpcChannel.complete out message).count (.run d) ≤ [out].countP (isDone d) := by
  unfold RpcChannel.complete
  cases out.response with
  | none => exact Nat.zero_le _
  | some response =>
    cases message.response <;> cases hd : out.done <;>
      simp [List.countP_cons, isDone, hd, List.count_singleton]

lemma count_run_actions (answers : List Answer) :
    (answers.flatMap Answer.actions).count (.run d) ≤
      answers.countP fun a => isDone d a.entry.2 := by
  induction answers with
  | nil => exact le_rfl
  | cons a answers ih =>
    have hrelease : (a.entry.2.response.map Action.release).toList.count (.run d) = 0 := by
      cases a.entry.2.response <;> simp
    have hself := count_run_complete d a.entry.2 a.message
    rw [List.countP_singleton] at hself
    rw [List.flatMap_cons, List.count_append, List.countP_cons, Answer.actions,
      List.count_append, hrelease]
    omega

lemma count_run_open (frame : Option Frame) : (openActions frame).count (.run d) ≤
    (inHand frame).countP fun e => isDone d e.2 := by
  match frame with
  | none => exact le_rfl
  | some .serving => exact le_rfl
  | some (.taken out message) => exact Nat.zero_le _
  | some (.finishing out message) => exact count_run_complete d out message

/-- A closure runs at most as often as it was passed to a call. -/
lemma count_run_le {id : CallId} {c : Endpoint M} {answers : List Answer}
    (h : Ledger id c answers) :
    c.log.count (.run d) ≤ c.calls.countP fun call => isDone d call.args.out := by
  have hcount := congrArg (Multiset.countP fun e : Entry => isDone d e.2) h.entries
  simp only [Multiset.countP_add, Multiset.coe_countP, List.countP_map, Function.comp_def,
    Call.entry, Bool.decide_eq_true] at hcount
  have h1 := count_run_actions d answers
  have h2 := count_run_open d c.frame
  rw [h.log, List.count_append]
  omega

end Runs

section Correlation

variable {clientId serverId : CallId} {services : List (Service M)} {s : RpcConnection M}

/-- What the server sent answers the request of some call. -/
lemma reply_of_sent
    (h : Balanced clientId (RpcChannel.new serverId (some (registerServices services))) s)
    {m : RpcMetaMessage} (hm : m ∈ s.server.sent) : ∃ call ∈ s.client.calls,
      Reply (RpcChannel.new serverId (some (registerServices services))) s.server.answered
        (RpcChannel.requestMessage call.args call.id) m := by
  obtain ⟨served, hs⟩ := h.served
  have hreply : m ∈ replies s.server := by
    simpa [replies, hm] using h.wire.replies m hm
  rw [← hs.replies] at hreply
  obtain ⟨⟨request, reply⟩, hpair, rfl⟩ := List.mem_map.mp hreply
  have hrequest : request ∈ requests s.server := by
    have hin : request ∈ (↑(served.map Prod.fst) + ↑(s.server.pending.map PendingDone.message) :
        Multiset RpcMetaMessage) :=
      Multiset.mem_add.mpr (Or.inl (List.mem_map.mpr ⟨_, hpair, rfl⟩))
    rw [hs.requests] at hin
    exact hin
  have hsent : request ∈ s.client.sent :=
    h.wire.serverReceived.subset (List.mem_of_mem_filter hrequest)
  obtain ⟨call, hcall, hmessage⟩ := h.wire.requests request hsent
  exact ⟨call, hcall, hmessage ▸ hs.reply _ hpair⟩

/-- A reply with a response answers the request of the call that it names. -/
theorem answer_of_reply
    (h : Balanced clientId (RpcChannel.new serverId (some (registerServices services))) s)
    {m : RpcMetaMessage} (hm : m ∈ s.server.sent) {bytes : Bytes} (hb : m.response = some bytes) :
    ∃ call ∈ s.client.calls, call.id = m.id ∧ ∃ p v, AnswerOf services s call bytes p v := by
  obtain ⟨call, hcall, hanswer⟩ := reply_of_sent h hm
  cases hanswer with
  | refused hd => simp [RpcChannel.errorReply, RpcMetaMessage.ofId] at hb
  | @answered p v hp hpm hd =>
    obtain ⟨hreg, hmethod, htarget⟩ := dispatch_eq_ok hd
    obtain ⟨hservice, hfull⟩ := registered_eq hreg
    obtain ⟨hmem, hname⟩ := findMethodByName_eq_some hmethod
    refine ⟨call, hcall, by simp only [RpcChannel.doneCallback, RpcMetaMessage.ofId,
      RpcChannel.requestMessage], p, v, hp, hpm, hservice, ?_, hmem, ?_, ?_, ?_⟩
    · simpa only [RpcChannel.requestMessage, RpcMetaMessage.getService,
        Option.getD_some] using hfull
    · simpa only [RpcChannel.requestMessage, RpcMetaMessage.getMethod,
        Option.getD_some] using hname
    · simpa only [RpcChannel.requestMessage, RpcMetaMessage.getRequest,
        Option.getD_some] using htarget
    · simp only [RpcChannel.doneCallback, Option.some.injEq] at hb
      exact hb.symm

/-- The ids of requests and replies on the wire and of closures with the services. -/
def wireIds (s : RpcConnection M) : List CallId :=
  s.toServer.map RpcMetaMessage.id ++ s.server.pending.map PendingDone.id ++
    s.toClient.map RpcMetaMessage.id

/-- No id is twice on its way, and each has its entry. -/
lemma wireIds_outstanding
    (h : Balanced clientId (RpcChannel.new serverId (some (registerServices services))) s) :
    s.wireIds.Nodup ∧ ∀ i ∈ s.wireIds, i ∈ s.client.channel.outstandings := by
  have hopen : (↑(s.client.registered.map Call.id) + ↑s.wireIds : Multiset CallId) =
      ↑s.client.channel.outstandings.keys := by
    rw [← h.wire.open_eq, openIds, wireIds, ← Multiset.coe_add, ← Multiset.coe_add]
    abel
  have hnodup : (↑(s.client.registered.map Call.id) + ↑s.wireIds : Multiset CallId).Nodup :=
    hopen ▸ Multiset.coe_nodup.mpr s.client.channel.outstandings.keys_nodup
  refine ⟨Multiset.coe_nodup.mp (Multiset.nodup_add.mp hnodup).2.1, ?_⟩
  intro i hi
  have hin : i ∈ (↑(s.client.registered.map Call.id) + ↑s.wireIds : Multiset CallId) :=
    Multiset.mem_add.mpr (Or.inr hi)
  rw [hopen] at hin
  exact hin

/-- The entry of an outstanding id is that of the call it was issued to. -/
lemma lookup_of_call {answers : List Answer} (hl : Ledger clientId s.client answers)
    (hn : s.client.calls.length < 2 ^ 64) {call : Call M} (hc : call ∈ s.client.calls)
    (hmem : call.id ∈ s.client.channel.outstandings) :
    s.client.channel.outstandings.lookup call.id = some call.args.out := by
  obtain ⟨out, hout⟩ := Option.isSome_iff_exists.mp (AList.lookup_isSome.mpr hmem)
  rw [hout, out_of_call hl hn hc (Or.inl (AList.mem_lookup_iff.mp hout))]

/-- For every interleaving of calling threads, both loop threads and the services, with fewer
than `2 ^ 64` calls: calls have different ids; every id on the wire or with a service has one
entry, that of its call; the next reply with a response, and one whose entry was just taken,
belongs to the call whose request it answers, fills its response object with the bytes of that
answer and runs its closure; and no closure runs more often than it was passed to a call. -/
theorem rpc_calls_correlate (clientId serverId : CallId) (services : List (Service M))
    (es : List (Event M)) (s : RpcConnection M)
    (h : run step (initial clientId serverId services) es = some s)
    (hcalls : s.client.calls.length < 2 ^ 64) :
    (s.client.calls.map Call.id).Nodup ∧
    s.wireIds.Nodup ∧
    (∀ i ∈ s.wireIds, s.client.channel.outstandings.keys.count i = 1 ∧
      ∃ call ∈ s.client.calls, call.id = i ∧
        s.client.channel.outstandings.lookup i = some call.args.out) ∧
    (∀ m bytes, s.toClient.head? = some m → m.response = some bytes →
      ∃ call ∈ s.client.calls, call.id = m.id ∧
        s.client.channel.outstandings.lookup m.id = some call.args.out ∧
        (∃ p v, AnswerOf services s call bytes p v) ∧
        ∀ t, step s .clientReceive = some t → t.client.frame =
          call.args.out.response.map fun _ => .taken call.args.out m) ∧
    (∀ out m bytes, s.client.frame = some (.taken out m) → m.response = some bytes →
      ∃ call ∈ s.client.calls, call.id = m.id ∧ call.args.out = out ∧
        (∃ p v, AnswerOf services s call bytes p v) ∧
        ∃ t, step s .clientResume = some t ∧ ∀ r d, out = ⟨some r, some d⟩ →
          t.client.log = s.client.log ++ [.parse r bytes, .run d]) ∧
    ∀ d, s.client.log.count (.run d) ≤
      s.client.calls.countP fun call => call.args.out.done == some d := by
  have hbalanced := balanced_run h hcalls
  obtain ⟨answers, hl⟩ := hbalanced.ledger
  obtain ⟨hnodup, hout⟩ := wireIds_outstanding hbalanced
  refine ⟨calls_ids_nodup hl hcalls, hnodup, ?_, ?_, ?_, fun d => count_run_le d hl⟩
  · intro i hi
    have hmem := hout i hi
    refine ⟨List.count_eq_one_of_mem s.client.channel.outstandings.keys_nodup hmem, ?_⟩
    obtain ⟨out, hlookup⟩ := Option.isSome_iff_exists.mp (AList.lookup_isSome.mpr hmem)
    obtain ⟨call, hc, hentry⟩ := entry_of_call hl (Or.inl (AList.mem_lookup_iff.mp hlookup))
    have hid : call.id = i := congrArg Sigma.fst hentry
    subst hid
    exact ⟨call, hc, rfl, lookup_of_call hl hcalls hc hmem⟩
  · intro m bytes hhead hb
    have hmem : m ∈ s.toClient := List.mem_of_mem_head? hhead
    obtain ⟨call, hc, hid, hanswer⟩ :=
      answer_of_reply hbalanced (List.mem_of_mem_drop hmem) hb
    have hin := toClient_outstanding hbalanced.wire hmem
    have hlookup := lookup_of_call hl hcalls hc (hid ▸ hin)
    rw [hid] at hlookup
    refine ⟨call, hc, hid, hlookup, hanswer, ?_⟩
    intro t ht
    obtain ⟨m', hm', ht⟩ := Option.bind_eq_some_iff.mp ht
    rw [hhead, Option.some.injEq] at hm'
    subst hm'
    obtain ⟨client, hclient, rfl⟩ := clientStep_eq_some.mp ht
    simp only [Endpoint.step, Option.ite_none_right_eq_some, Option.some.injEq] at hclient
    obtain ⟨-, rfl⟩ := hclient
    simp only [Endpoint.onRpcMessage, toClient_response hbalanced.wire hmem, Endpoint.onResponse,
      RpcChannel.takeOutstanding_some _ hlookup]
  · intro out m bytes hframe hb
    have hreceived := hbalanced.wire.inHand out m (Or.inl hframe)
    obtain ⟨call, hc, hid, hanswer⟩ :=
      answer_of_reply hbalanced (hbalanced.wire.clientReceived.subset hreceived) hb
    have hargs : call.args.out = out := by
      refine out_of_call hl hcalls hc (Or.inr ?_)
      rw [hframe, hid]
      exact List.mem_singleton_self _
    refine ⟨call, hc, hid, hargs, hanswer, ⟨s.client.resumeFrame (.taken out m), s.server⟩,
      ?_, ?_⟩
    · simp [step, clientStep, Endpoint.step, hframe]
    · rintro r d rfl
      simp [Endpoint.resumeFrame, RpcChannel.complete, hb]

end Correlation

/-- Two threads call, the second registers and sends first, and the services answer the first
call last; its reply is on the wire. -/
def twoCalls : List (Event Bytes) :=
  [.begin ⟨echo, [5], ⟨some 0, some 10⟩⟩, .begin ⟨echo, [6], ⟨some 1, some 11⟩⟩, .register 1,
    .register 0, .send 0, .serverReceive, .send 0, .serverResume, .serverReceive, .runDone 0 [6],
    .serverResume, .clientReceive, .clientResume, .clientResume, .runDone 0 [5]]

theorem rpc_calls_correlate_twoCalls : ∃ s : RpcConnection Bytes,
    run step (initial 0 9 [⟨[69], [echo]⟩]) twoCalls = some s ∧ s.toClient.length = 1 ∧
      s.client.log = [.parse 1 [6], .run 11, .release 1] ∧
      (s.client.calls.map Call.id).Nodup ∧ s.wireIds.Nodup ∧
      ∀ i ∈ s.wireIds, s.client.channel.outstandings.keys.count i = 1 := by
  obtain ⟨hids, hwire, hentries, -⟩ :=
    rpc_calls_correlate 0 9 [⟨[69], [echo]⟩] twoCalls _ rfl (by decide)
  exact ⟨_, rfl, rfl, rfl, hids, hwire, fun i hi => (hentries i hi).1⟩

end RpcMuduo.RpcConnection
