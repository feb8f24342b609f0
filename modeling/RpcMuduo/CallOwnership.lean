import RpcMuduo.CallLedger

/-!
# Ownership of response objects and done closures

Whatever the peer sends, every response object and every closure passed to `CallMethod` is
accounted for once: by the loop thread that matched a reply, or by the destructor.
-/
namespace RpcMuduo.Endpoint
open RpcMeta Run

variable {M : Type*}

/-- The callers hand over objects of their own: not `NULL`, and no object in two calls. -/
structure Owned (calls : List (Call M)) : Prop where
  response_not_null : ∀ call ∈ calls, call.args.out.response ≠ none
  done_not_null : ∀ call ∈ calls, call.args.out.done ≠ none
  response_nodup : (calls.map fun call => call.args.out.response).Nodup
  done_nodup : (calls.map fun call => call.args.out.done).Nodup

/-- The action is on the response object `r` or on the closure `d`. -/
def concerns (r d : ℕ) : Action → Bool
  | .parse response _ => response == r
  | .run done => done == d
  | .release response => response == r
  | .deleteResponse response => response == r
  | .deleteDone done => done == d

/-- The action is on an object of the entry. -/
def Belongs (out : OutstandingCall) : Action → Prop
  | .parse response _ => out.response = some response
  | .run done => out.done = some done
  | .release response => out.response = some response
  | .deleteResponse response => out.response = some response
  | .deleteDone done => out.done = some done

/-- All that may happen to the objects of a call: the closure runs once and the response is
released after it, or the destructor deletes both. -/
inductive Fate (r d : ℕ) : List Action → Prop
  | answered : Fate r d [.run d, .release r]
  | filled (bytes : Bytes) : Fate r d [.parse r bytes, .run d, .release r]
  | deleted : Fate r d [.deleteResponse r, .deleteDone d]

lemma belongs_complete {out : OutstandingCall} {message : RpcMetaMessage} {a : Action}
    (h : a ∈ RpcChannel.complete out message) : Belongs out a := by
  unfold RpcChannel.complete at h
  cases hr : out.response with
  | none => simp [hr] at h
  | some response =>
    simp only [hr, List.mem_append, Option.mem_toList, Option.map_eq_some_iff] at h
    rcases h with ⟨bytes, -, rfl⟩ | ⟨done, hd, rfl⟩
    · exact hr
    · exact hd

lemma belongs_actions {answer : Answer} {a : Action} (h : a ∈ answer.actions) :
    Belongs answer.entry.2 a := by
  rcases List.mem_append.mp h with h | h
  · exact belongs_complete h
  · simp only [Option.mem_toList, Option.map_eq_some_iff] at h
    obtain ⟨response, hr, rfl⟩ := h
    exact hr

lemma belongs_deleteCall {out : OutstandingCall} {a : Action}
    (h : a ∈ RpcChannel.deleteCall out) : Belongs out a := by
  simp only [RpcChannel.deleteCall, List.mem_append, Option.mem_toList,
    Option.map_eq_some_iff] at h
  rcases h with ⟨response, hr, rfl⟩ | ⟨done, hd, rfl⟩
  · exact hr
  · exact hd

lemma concerns_of_belongs {r d : ℕ} {a : Action} (h : Belongs ⟨some r, some d⟩ a) :
    concerns r d a = true := by
  cases a <;> simp_all [Belongs, concerns]

lemma not_concerns_of_belongs {r d : ℕ} {out : OutstandingCall} {a : Action}
    (hr : out.response ≠ some r) (hd : out.done ≠ some d) (h : Belongs out a) :
    concerns r d a = false := by
  cases a <;> simp only [Belongs] at h <;> simp only [concerns, beq_eq_false_iff_ne] <;>
    rintro rfl <;> contradiction

lemma fate_actions {r d : ℕ} (answer : Answer) (h : answer.entry.2 = ⟨some r, some d⟩) :
    Fate r d answer.actions := by
  simp only [Answer.actions, RpcChannel.complete, h]
  cases answer.message.response with
  | none => exact .answered
  | some bytes => exact .filled bytes

/-- In a log made of one part for each entry, what concerns the objects of an entry is its own
part, when no object is in two entries. -/
lemma filter_parts {parts : List (OutstandingCall × List Action)}
    (hbelongs : ∀ p ∈ parts, ∀ a ∈ p.2, Belongs p.1 a)
    (hr : (parts.map fun p => p.1.response).Nodup) (hd : (parts.map fun p => p.1.done).Nodup)
    {r d : ℕ} {part : List Action} (hmem : (⟨some r, some d⟩, part) ∈ parts) :
    (parts.flatMap Prod.snd).filter (concerns r d) = part := by
  have hother : ∀ ps : List (OutstandingCall × List Action),
      (∀ p ∈ ps, ∀ a ∈ p.2, Belongs p.1 a) → (∀ p ∈ ps, p.1.response ≠ some r) →
      (∀ p ∈ ps, p.1.done ≠ some d) → (ps.flatMap Prod.snd).filter (concerns r d) = [] := by
    intro ps hb hr hd
    rw [List.filter_eq_nil_iff]
    intro a ha
    obtain ⟨p, hp, hap⟩ := List.mem_flatMap.mp ha
    rw [not_concerns_of_belongs (hr p hp) (hd p hp) (hb p hp a hap)]
    exact Bool.false_ne_true
  obtain ⟨ps, qs, rfl⟩ := List.append_of_mem hmem
  simp only [List.map_append, List.map_cons, List.nodup_append, List.nodup_cons, List.mem_cons,
    List.mem_map] at hr hd
  simp only [List.mem_append, List.mem_cons] at hbelongs
  have hself : part.filter (concerns r d) = part := by
    rw [List.filter_eq_self]
    intro a ha
    exact concerns_of_belongs (hbelongs _ (Or.inr (Or.inl rfl)) a ha)
  have hps : (ps.flatMap Prod.snd).filter (concerns r d) = [] := by
    refine hother ps (fun p hp => hbelongs p (Or.inl hp)) ?_ ?_
    · intro p hp heq
      exact hr.2.2 _ ⟨p, hp, rfl⟩ _ (Or.inl rfl) heq
    · intro p hp heq
      exact hd.2.2 _ ⟨p, hp, rfl⟩ _ (Or.inl rfl) heq
  have hqs : (qs.flatMap Prod.snd).filter (concerns r d) = [] := by
    refine hother qs (fun p hp => hbelongs p (Or.inr (Or.inr hp))) ?_ ?_
    · intro p hp heq
      exact hr.2.1.1 ⟨p, hp, heq⟩
    · intro p hp heq
      exact hd.2.1.1 ⟨p, hp, heq⟩
  rw [List.flatMap_append, List.flatMap_cons, List.filter_append, List.filter_append, hps, hself,
    hqs, List.nil_append, List.append_nil]

/-- The parts that make the log of a destroyed channel: an answer or a deletion for each call. -/
def parts (answers : List Answer) (entries : List Entry) :
    List (OutstandingCall × List Action) :=
  answers.map (fun a => (a.entry.2, a.actions)) ++
    entries.map fun e => (e.2, RpcChannel.deleteCall e.2)

lemma parts_flatMap (answers : List Answer) (entries : List Entry) :
    (parts answers entries).flatMap Prod.snd =
      answers.flatMap Answer.actions ++ entries.flatMap fun e => RpcChannel.deleteCall e.2 := by
  simp [parts, List.flatMap_map]

lemma parts_belongs {answers : List Answer} {entries : List Entry}
    {p : OutstandingCall × List Action} (hp : p ∈ parts answers entries) {a : Action}
    (ha : a ∈ p.2) : Belongs p.1 a := by
  rcases List.mem_append.mp hp with hp | hp
  · obtain ⟨answer, -, rfl⟩ := List.mem_map.mp hp
    exact belongs_actions ha
  · obtain ⟨entry, -, rfl⟩ := List.mem_map.mp hp
    exact belongs_deleteCall ha

/-- At rest the calls are those answered and those outstanding. -/
lemma calls_perm_parts {id : CallId} {s : Endpoint M} {answers : List Answer}
    (h : Ledger id s answers) (hstarted : s.started = []) (hframe : s.frame = none)
    {entries : List Entry} (hp : entries.Perm s.channel.outstandings.entries) :
    (s.calls.map fun call => call.args.out).Perm ((parts answers entries).map Prod.fst) := by
  have hentries := h.entries
  simp only [hstarted, hframe, inHand, List.map_nil, Multiset.coe_nil, zero_add, add_zero,
    ← Multiset.coe_eq_coe.mpr hp, Multiset.coe_add, Multiset.coe_eq_coe] at hentries
  have hmap := (hentries.trans List.perm_append_comm).map Sigma.snd
  simpa [parts, List.map_map, Function.comp_def, Call.entry] using hmap

/-- After the destructor each call has had exactly one fate. -/
lemma fate_of_call {id : CallId} {s : Endpoint M} {answers : List Answer}
    (h : Ledger id s answers) (howned : Owned s.calls) (hstarted : s.started = [])
    (hframe : s.frame = none) {call : Call M} (hcall : call ∈ s.calls) {r d : ℕ}
    (hout : call.args.out = ⟨some r, some d⟩) :
    Fate r d ((s.log ++ s.channel.destroy).filter (concerns r d)) := by
  have hperm := calls_perm_parts h hstarted hframe
    (List.mergeSort_perm s.channel.outstandings.entries fun a b =>
      decide (a.1.toInt ≤ b.1.toInt))
  generalize hsort : (s.channel.outstandings.entries.mergeSort fun a b =>
    decide (a.1.toInt ≤ b.1.toInt)) = entries at hperm
  have hlog : s.log ++ s.channel.destroy = (parts answers entries).flatMap Prod.snd := by
    rw [parts_flatMap, h.log, hframe, openActions, List.append_nil, RpcChannel.destroy, hsort]
  have hmem : (⟨some r, some d⟩ : OutstandingCall) ∈ (parts answers entries).map Prod.fst :=
    hperm.mem_iff.mp (List.mem_map.mpr ⟨call, hcall, hout⟩)
  obtain ⟨p, hp, hfst⟩ := List.mem_map.mp hmem
  have hresponse : ((parts answers entries).map fun p => p.1.response).Nodup := by
    have hmap := hperm.map OutstandingCall.response
    rw [List.map_map, List.map_map] at hmap
    exact hmap.nodup_iff.mp howned.response_nodup
  have hdone : ((parts answers entries).map fun p => p.1.done).Nodup := by
    have hmap := hperm.map OutstandingCall.done
    rw [List.map_map, List.map_map] at hmap
    exact hmap.nodup_iff.mp howned.done_nodup
  have hpair : (⟨⟨some r, some d⟩, p.2⟩ : OutstandingCall × List Action) ∈
      parts answers entries := hfst ▸ hp
  rw [hlog, filter_parts (fun q hq a ha => parts_belongs hq ha) hresponse hdone hpair]
  rcases List.mem_append.mp hp with hp | hp
  · obtain ⟨answer, -, rfl⟩ := List.mem_map.mp hp
    exact fate_actions answer hfst
  · obtain ⟨entry, -, rfl⟩ := List.mem_map.mp hp
    simp only at hfst
    simp only [hfst, RpcChannel.deleteCall]
    exact .deleted

/-- The calls that are not finished, wherever they are. -/
def SameCalls (s t : Endpoint M) : Prop :=
  t.channel.outstandings = s.channel.outstandings ∧ t.started = s.started ∧
    t.registered = s.registered ∧ inHand t.frame = inHand s.frame ∧ t.log = s.log

/-- A message that names no outstanding call changes no call. -/
lemma receive_unmatched {s t : Endpoint M} {message : RpcMetaMessage}
    (hstep : step s (.receive message) = some t)
    (h : message.type ≠ .RESPONSE ∨ message.id ∉ s.channel.outstandings) : SameCalls s t := by
  simp only [step, Option.ite_none_right_eq_some, Option.some.injEq] at hstep
  obtain ⟨hframe, rfl⟩ := hstep
  unfold onRpcMessage
  cases htype : message.type with
  | RESPONSE =>
    have hnone : s.channel.outstandings.lookup message.id = none := by
      rcases h with h | h
      · exact absurd htype h
      · exact AList.lookup_eq_none.mpr h
    simp only [onResponse_missing hnone]
    exact ⟨rfl, rfl, rfl, by rw [hframe], rfl⟩
  | REQUEST =>
    unfold onRequest
    cases s.channel.dispatch message with
    | ok target => exact ⟨rfl, rfl, rfl, by simp [hframe, inHand], rfl⟩
    | error error => exact ⟨rfl, rfl, rfl, rfl, rfl⟩
  | ERROR => exact ⟨rfl, rfl, rfl, rfl, rfl⟩

/-- No message changes the entry of an id that it does not name. -/
lemma receive_other_entry {s t : Endpoint M} {message : RpcMetaMessage}
    (hstep : step s (.receive message) = some t) {id : CallId} (hid : id ≠ message.id) :
    t.channel.outstandings.lookup id = s.channel.outstandings.lookup id := by
  by_cases h : message.type ≠ .RESPONSE ∨ message.id ∉ s.channel.outstandings
  · rw [(receive_unmatched hstep h).1]
  · simp only [step, Option.ite_none_right_eq_some, Option.some.injEq] at hstep
    obtain ⟨-, rfl⟩ := hstep
    simp only [not_or, not_not] at h
    obtain ⟨out, hout⟩ := Option.isSome_iff_exists.mp (AList.lookup_isSome.mpr h.2)
    simp only [onRpcMessage, h.1]
    cases hr : out.response with
    | none => rw [onResponse_null hout hr, AList.lookup_erase_ne hid]
    | some response => rw [onResponse_found hout hr, AList.lookup_erase_ne hid]

/-- What a matching message starts changes nothing but its own entry and the objects in it. -/
lemma resume_own_entry {s t : Endpoint M} (hstep : step s .resume = some t) :
    t.channel = s.channel ∧ t.started = s.started ∧ t.registered = s.registered ∧
      ∃ actions, t.log = s.log ++ actions ∧
        ∀ a ∈ actions, ∃ entry ∈ inHand s.frame, Belongs entry.2 a := by
  obtain ⟨frame, hframe, rfl⟩ := Option.map_eq_some_iff.mp hstep
  rw [hframe]
  cases frame with
  | serving => exact ⟨rfl, rfl, rfl, [], by simp [resumeFrame], by simp⟩
  | taken out message =>
    refine ⟨rfl, rfl, rfl, RpcChannel.complete out message, rfl, ?_⟩
    intro a ha
    exact ⟨_, List.mem_singleton_self _, belongs_complete ha⟩
  | finishing out message =>
    refine ⟨rfl, rfl, rfl, (out.response.map Action.release).toList, rfl, ?_⟩
    intro a ha
    simp only [Option.mem_toList, Option.map_eq_some_iff] at ha
    obtain ⟨response, hr, rfl⟩ := ha
    exact ⟨_, List.mem_singleton_self _, hr⟩

/-- From any value of `_id` and with any services, along any run of fewer than `2 ^ 64` calls:
once no call is half made and no closure is running, the destructor gives every call exactly one
fate. On the way, a message that names no outstanding call changes no call, and any other
changes its own entry only. -/
theorem calls_survive_any_peer (id : CallId) (services : Option (Services M))
    (es : List (Event M)) (s : Endpoint M)
    (h : run step (initial (RpcChannel.new id services)) es = some s)
    (hcalls : s.calls.length < 2 ^ 64) (howned : Owned s.calls) :
    (s.started = [] → s.frame = none → ∀ call ∈ s.calls, ∃ r d,
      call.args.out = ⟨some r, some d⟩ ∧
        Fate r d ((s.log ++ s.channel.destroy).filter (concerns r d))) ∧
    (∀ message t, step s (.receive message) = some t →
      (message.type ≠ .RESPONSE ∨ message.id ∉ s.channel.outstandings → SameCalls s t) ∧
      t.started = s.started ∧ t.registered = s.registered ∧ t.log = s.log ∧
      ∀ other ≠ message.id,
        t.channel.outstandings.lookup other = s.channel.outstandings.lookup other) ∧
    ∀ t, step s .resume = some t →
      t.channel = s.channel ∧ t.started = s.started ∧ t.registered = s.registered ∧
        ∃ actions, t.log = s.log ++ actions ∧
          ∀ a ∈ actions, ∃ entry ∈ inHand s.frame, Belongs entry.2 a := by
  obtain ⟨answers, hledger⟩ := ledger_run rfl h hcalls
  refine ⟨?_, ?_, fun t ht => resume_own_entry ht⟩
  · intro hstarted hframe call hcall
    obtain ⟨r, hr⟩ := Option.ne_none_iff_exists'.mp (howned.response_not_null call hcall)
    obtain ⟨d, hd⟩ := Option.ne_none_iff_exists'.mp (howned.done_not_null call hcall)
    have hout : call.args.out = ⟨some r, some d⟩ := by
      rw [← hr, ← hd]
    exact ⟨r, d, hout, fate_of_call hledger howned hstarted hframe hcall hout⟩
  · intro message t ht
    refine ⟨receive_unmatched ht, ?_, ?_, ?_, fun other ho => receive_other_entry ht ho⟩
    all_goals
      simp only [step, Option.ite_none_right_eq_some, Option.some.injEq] at ht
      obtain ⟨-, rfl⟩ := ht
      unfold onRpcMessage onRequest
      cases message.type with
      | RESPONSE => rfl
      | REQUEST => cases s.channel.dispatch message <;> rfl
      | ERROR => rfl

def echoCall (response done : ℕ) : CallArgs Bytes := ⟨echo, [1], ⟨some response, some done⟩⟩

/-- Two calls, an unknown and a matching reply, a third call from inside the closure that the
matching one runs, and the matching one again. -/
def peerEvents : List (Event Bytes) :=
  [.begin (echoCall 0 10), .register 0, .send 0, .begin (echoCall 1 11), .register 0,
    .receive (.ofId .RESPONSE 7), .receive (.ofId .RESPONSE 42), .resume,
    .begin (echoCall 2 12), .register 0, .resume, .receive (.ofId .RESPONSE 42),
    .receive (.ofId .ERROR 43)]

theorem calls_survive_any_peer_peerEvents : ∃ s : Endpoint Bytes,
    run step (initial (RpcChannel.new 41 none)) peerEvents = some s ∧ s.calls.length = 3 ∧
      ∀ call ∈ s.calls, ∃ r d, call.args.out = ⟨some r, some d⟩ ∧
        Fate r d ((s.log ++ s.channel.destroy).filter (concerns r d)) :=
  ⟨_, rfl, rfl, (calls_survive_any_peer 41 none peerEvents _ rfl (by decide)
    ⟨by decide, by decide, by decide, by decide⟩).1 rfl rfl⟩

end RpcMuduo.Endpoint
