import RpcMuduo.Bag
import RpcMuduo.Endpoint

/-!
# The ledger of calls

Every call whose id was allocated is in exactly one place: not yet registered, outstanding, in
the hands of the loop thread, or finished. What was done to the objects of callers is what the
finished calls account for.
-/
namespace RpcMuduo
open RpcMeta Run

variable {M : Type*}

/-- An entry of `_outstandings`. -/
abbrev Entry := Σ _ : CallId, OutstandingCall

def Call.entry (call : Call M) : Entry := ⟨call.id, call.args.out⟩

namespace Endpoint

/-- The first `n` ids that `incrementAndGet` gives out. -/
def issued (id : CallId) (n : ℕ) : List CallId :=
  (List.range n).map fun i => id + BitVec.ofNat 64 (i + 1)

/-- An entry that the loop thread took and has not finished. -/
def inHand : Option Frame → List Entry
  | none => []
  | some .serving => []
  | some (.taken out message) => [⟨message.id, out⟩]
  | some (.finishing out message) => [⟨message.id, out⟩]

/-- A finished call: its entry and the message that it was matched with. -/
structure Answer where
  entry : Entry
  message : RpcMetaMessage

def Answer.actions (a : Answer) : List Action :=
  RpcChannel.complete a.entry.2 a.message ++ (a.entry.2.response.map Action.release).toList

/-- The actions on the entry in hand. -/
def openActions : Option Frame → List Action
  | none => []
  | some .serving => []
  | some (.taken _ _) => []
  | some (.finishing out message) => RpcChannel.complete out message

structure Ledger (id : CallId) (s : Endpoint M) (answers : List Answer) : Prop where
  counter : s.channel.id = id + BitVec.ofNat 64 s.calls.length
  ids : s.calls.map Call.id = issued id s.calls.length
  entries : (↑(s.calls.map Call.entry) : Multiset Entry) =
    ↑(s.started.map Call.entry) + ↑s.channel.outstandings.entries + ↑(inHand s.frame) +
      ↑(answers.map Answer.entry)
  log : s.log = answers.flatMap Answer.actions ++ openActions s.frame

lemma issue_next (id : CallId) (n : ℕ) :
    id + BitVec.ofNat 64 n + 1 = id + BitVec.ofNat 64 (n + 1) := by
  rw [BitVec.ofNat_add, BitVec.add_assoc]
  rfl

lemma issued_succ (id : CallId) (n : ℕ) :
    issued id (n + 1) = issued id n ++ [id + BitVec.ofNat 64 (n + 1)] := by
  simp [issued, List.range_succ]

/-- The counter does not come back to an id within `2 ^ 64` calls. -/
lemma issued_nodup (id : CallId) {n : ℕ} (h : n < 2 ^ 64) : (issued id n).Nodup := by
  unfold issued
  refine List.Nodup.map_on ?_ List.nodup_range
  intro i hi j hj heq
  rw [List.mem_range] at hi hj
  have hof : BitVec.ofNat 64 (i + 1) = BitVec.ofNat 64 (j + 1) := add_left_cancel heq
  have hnat := congrArg BitVec.toNat hof
  simp only [BitVec.toNat_ofNat] at hnat
  omega

section Steps

variable {id : CallId} {s : Endpoint M} {answers : List Answer}

/-- Entries of started calls are not in the map yet, while ids do not repeat. -/
lemma Ledger.started_not_outstanding (h : Ledger id s answers) (hn : s.calls.length < 2 ^ 64)
    {call : Call M} (hc : call ∈ s.started) : call.id ∉ s.channel.outstandings := by
  intro hmem
  have hids : (s.calls.map Call.id).Nodup := h.ids ▸ issued_nodup id hn
  have hmap : (↑(s.calls.map Call.id) : Multiset CallId) =
      (↑(s.calls.map Call.entry) : Multiset Entry).map Sigma.fst := by
    rw [Multiset.map_coe, List.map_map]
    rfl
  have hnodup : ((↑(s.calls.map Call.entry) : Multiset Entry).map Sigma.fst).Nodup :=
    hmap ▸ Multiset.coe_nodup.mpr hids
  rw [h.entries, Multiset.map_add, Multiset.map_add, Multiset.map_add] at hnodup
  have hpart := (Multiset.nodup_add.mp (Multiset.nodup_add.mp
    (Multiset.nodup_add.mp hnodup).1).1).2.2
  obtain ⟨out, hout⟩ := List.mem_keys.mp (AList.mem_keys.mp hmem)
  have hentry : call.entry ∈ (↑(s.started.map Call.entry) : Multiset Entry) :=
    List.mem_map_of_mem hc
  have hkey : call.id ∈ (↑s.channel.outstandings.entries : Multiset Entry).map Sigma.fst :=
    Multiset.mem_map.mpr ⟨_, hout, rfl⟩
  exact Multiset.disjoint_left.mp hpart (Multiset.mem_map_of_mem Sigma.fst hentry) hkey

lemma ledger_initial (channel : RpcChannel M) (hnone : channel.outstandings = ∅) :
    Ledger channel.id (initial channel) [] where
  counter := by simp [initial]
  ids := rfl
  entries := by simp [initial, hnone, inHand]
  log := rfl

lemma ledger_beginCall (h : Ledger id s answers) (args : CallArgs M) :
    Ledger id (s.beginCall args) answers where
  counter := by
    simp only [beginCall, RpcChannel.incrementAndGet, List.length_append, List.length_singleton,
      h.counter, issue_next]
  ids := by
    simp only [beginCall, RpcChannel.incrementAndGet, List.map_append, List.length_append,
      List.length_singleton, issued_succ, h.ids, h.counter, List.map_singleton, issue_next]
  entries := by
    simp only [beginCall, RpcChannel.incrementAndGet, List.map_append, List.map_singleton,
      Bag.coe_concat, h.entries]
    abel
  log := h.log

lemma ledger_registerCall (h : Ledger id s answers) (hn : s.calls.length < 2 ^ 64) {k : ℕ}
    {call : Call M} (hk : s.started[k]? = some call) :
    Ledger id (s.registerCall k call) answers where
  counter := h.counter
  ids := h.ids
  entries := by
    have hfresh := h.started_not_outstanding hn (List.mem_of_getElem? hk)
    have hstarted := Bag.map_eraseIdx hk Call.entry
    have hinsert : (↑(s.channel.outstandings.insert call.id call.args.out).entries :
        Multiset Entry) = ↑s.channel.outstandings.entries + {call.entry} := by
      rw [AList.entries_insert_of_notMem hfresh, ← Multiset.cons_coe, ← Multiset.singleton_add,
        add_comm]
      rfl
    simp only [registerCall, RpcChannel.registerCall, hinsert, h.entries, hstarted]
    abel
  log := h.log

lemma ledger_sendCall (h : Ledger id s answers) (k : ℕ) (call : Call M) :
    Ledger id (s.sendCall k call) answers :=
  ⟨h.counter, h.ids, h.entries, h.log⟩

/-- Taking an entry puts it in hand, or finishes it when its response is `NULL`. -/
lemma ledger_onResponse (h : Ledger id s answers) (hframe : s.frame = none)
    (message : RpcMetaMessage) : ∃ answers', Ledger id (s.onResponse message) answers' := by
  have hentries := h.entries
  have hlog := h.log
  rw [hframe] at hentries hlog
  cases hl : s.channel.outstandings.lookup message.id with
  | none =>
    rw [onResponse_missing hl]
    exact ⟨answers, h.counter, h.ids, hentries, hlog⟩
  | some out =>
    rw [Bag.entries_erase hl] at hentries
    cases hr : out.response with
    | none =>
      rw [onResponse_null hl hr]
      refine ⟨answers ++ [⟨⟨message.id, out⟩, message⟩], h.counter, h.ids, ?_, ?_⟩
      · rw [hentries, List.map_append, List.map_singleton, Bag.coe_concat]
        abel
      · simp [hlog, openActions, Answer.actions, RpcChannel.complete, hr]
    | some response =>
      rw [onResponse_found hl hr]
      refine ⟨answers, h.counter, h.ids, ?_, ?_⟩
      · simp only [hentries, inHand, Multiset.coe_singleton, Multiset.coe_nil]
        abel
      · simpa [openActions] using hlog

lemma ledger_onRequest (h : Ledger id s answers) (hframe : s.frame = none)
    (message : RpcMetaMessage) : Ledger id (s.onRequest message) answers := by
  have hentries := h.entries
  have hlog := h.log
  rw [hframe] at hentries hlog
  unfold onRequest
  cases s.channel.dispatch message with
  | ok target => exact ⟨h.counter, h.ids, hentries, hlog⟩
  | error error => exact ⟨h.counter, h.ids, h.entries, h.log⟩

lemma ledger_received (h : Ledger id s answers) (received : List RpcMetaMessage) :
    Ledger id { s with received := received } answers :=
  ⟨h.counter, h.ids, h.entries, h.log⟩

lemma ledger_onRpcMessage (h : Ledger id s answers) (hframe : s.frame = none)
    (message : RpcMetaMessage) : ∃ answers', Ledger id (s.onRpcMessage message) answers' := by
  unfold onRpcMessage
  cases message.type with
  | RESPONSE =>
    obtain ⟨answers', h'⟩ := ledger_onResponse h hframe message
    exact ⟨answers', ledger_received h' _⟩
  | REQUEST => exact ⟨answers, ledger_received (ledger_onRequest h hframe message) _⟩
  | ERROR => exact ⟨answers, ledger_received h _⟩

/-- Returning from a closure finishes its call. -/
lemma ledger_resumeFrame (h : Ledger id s answers) {frame : Frame} (hframe : s.frame = some frame) :
    ∃ answers', Ledger id (s.resumeFrame frame) answers' := by
  have hentries := h.entries
  have hlog := h.log
  rw [hframe] at hentries hlog
  cases frame with
  | serving => exact ⟨answers, h.counter, h.ids, hentries, hlog⟩
  | taken out message =>
    refine ⟨answers, h.counter, h.ids, hentries, ?_⟩
    simp only [resumeFrame, hlog, openActions, List.append_nil]
  | finishing out message =>
    refine ⟨answers ++ [⟨⟨message.id, out⟩, message⟩], h.counter, h.ids, ?_, ?_⟩
    · simp only [resumeFrame, hentries, inHand, List.map_append, List.map_singleton,
        Bag.coe_concat, Multiset.coe_singleton, Multiset.coe_nil]
      abel
    · simp [resumeFrame, hlog, openActions, Answer.actions]

lemma ledger_doneCallback (h : Ledger id s answers) (k : ℕ) (p : PendingDone M) (response : M) :
    Ledger id (s.doneCallback k p response) answers :=
  ⟨h.counter, h.ids, h.entries, h.log⟩

lemma ledger_step (h : Ledger id s answers) (hn : s.calls.length < 2 ^ 64) {e : Event M}
    {t : Endpoint M} (hstep : step s e = some t) : ∃ answers', Ledger id t answers' := by
  cases e with
  | begin args =>
    simp only [step, Option.some.injEq] at hstep
    exact ⟨answers, hstep ▸ ledger_beginCall h args⟩
  | register k =>
    obtain ⟨call, hk, rfl⟩ := Option.map_eq_some_iff.mp hstep
    exact ⟨answers, ledger_registerCall h hn hk⟩
  | send k =>
    obtain ⟨call, -, rfl⟩ := Option.map_eq_some_iff.mp hstep
    exact ⟨answers, ledger_sendCall h k call⟩
  | receive message =>
    simp only [step, Option.ite_none_right_eq_some, Option.some.injEq] at hstep
    obtain ⟨hframe, rfl⟩ := hstep
    exact ledger_onRpcMessage h hframe message
  | resume =>
    obtain ⟨frame, hframe, rfl⟩ := Option.map_eq_some_iff.mp hstep
    exact ledger_resumeFrame h hframe
  | runDone k response =>
    obtain ⟨p, -, rfl⟩ := Option.map_eq_some_iff.mp hstep
    exact ⟨answers, ledger_doneCallback h k p response⟩

end Steps

/-- Calls are never forgotten. -/
lemma calls_step {s t : Endpoint M} {e : Event M} (hstep : step s e = some t) :
    s.calls <+: t.calls := by
  cases e with
  | begin args =>
    simp only [step, Option.some.injEq] at hstep
    exact hstep ▸ List.prefix_append _ _
  | register k =>
    obtain ⟨call, -, rfl⟩ := Option.map_eq_some_iff.mp hstep
    exact List.prefix_refl _
  | send k =>
    obtain ⟨call, -, rfl⟩ := Option.map_eq_some_iff.mp hstep
    exact List.prefix_refl _
  | receive message =>
    simp only [step, Option.ite_none_right_eq_some, Option.some.injEq] at hstep
    obtain ⟨-, rfl⟩ := hstep
    unfold onRpcMessage onRequest
    cases message.type with
    | REQUEST => cases s.channel.dispatch message <;> exact List.prefix_refl _
    | RESPONSE => exact List.prefix_refl _
    | ERROR => exact List.prefix_refl _
  | resume =>
    obtain ⟨frame, -, rfl⟩ := Option.map_eq_some_iff.mp hstep
    cases frame <;> exact List.prefix_refl _
  | runDone k response =>
    obtain ⟨p, -, rfl⟩ := Option.map_eq_some_iff.mp hstep
    exact List.prefix_refl _

/-- Along a run of fewer than `2 ^ 64` calls the ledger stays balanced. -/
theorem ledger_run {channel : RpcChannel M} (hnone : channel.outstandings = ∅)
    {es : List (Event M)} {s : Endpoint M} (h : run step (initial channel) es = some s)
    (hn : s.calls.length < 2 ^ 64) : ∃ answers, Ledger channel.id s answers := by
  have hinv : s.calls.length < 2 ^ 64 → ∃ answers, Ledger channel.id s answers := by
    refine run_invariant (P := fun s : Endpoint M =>
      s.calls.length < 2 ^ 64 → ∃ answers, Ledger channel.id s answers) ?_ ?_ h
    · intro s e t hs hstep ht
      have hle := (calls_step hstep).length_le
      obtain ⟨answers, hl⟩ := hs (by omega)
      exact ledger_step hl (by omega) hstep
    · intro _
      exact ⟨[], ledger_initial channel hnone⟩
  exact hinv hn

end Endpoint

end RpcMuduo
