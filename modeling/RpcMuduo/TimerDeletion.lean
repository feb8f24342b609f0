import RpcMuduo.TimerOwnership

/-!
# The deletion of timers

Timers are deleted by `cancelInLoop`, by `reset` and by the destructor of the queue, which runs
outside `handleRead` and after the pending functors are gone. A `delete` is recorded with the
sequence number of the `Timer` that lives at the address, if one does.
-/
namespace RpcMuduo.TimerQueue
open Run

section Deletes

variable (s : TimerQueue)

/-- The number of the `Timer` at the address. -/
def sequenceAt (address : ℕ) : Option ℕ := (s.heap address).map Timer.sequence

/-- Some `Timer` with this number lives. -/
def Lives (sequence : ℕ) : Prop := ∃ address, s.sequenceAt address = some sequence

/-- What `cancelInLoop` deletes. -/
def erases (timerId : TimerId) (garbage : ℤ) : List ℕ :=
  if entry (s.getStamp timerId.timer garbage) timerId.timer ∈ s.pTimers then [timerId.timer]
  else []

/-- The addresses that the step passes to `delete`. -/
def deletes : Event → List ℕ
  | .cancelTimer timerId garbage => s.erases timerId garbage
  | .runFunctor garbage _ =>
    match s.pendingFunctors with
    | .cancelInLoop timerId :: _ => s.erases timerId garbage
    | _ => []
  | .resetOne _ =>
    match s.phase with
    | .restarting (e :: _) => if (s.heap e.address).any Timer.isRepeat then [] else [e.address]
    | _ => []
  | _ => []

end Deletes

/-- A timer queue until its end, with the numbers of the timers deleted. -/
structure Lifetime where
  queue : TimerQueue
  deleted : List (Option ℕ)
  destroyed : Bool

namespace Lifetime

inductive Event
  | ofQueue (e : TimerQueue.Event)
  | destroy
  deriving DecidableEq

def initial : Lifetime := ⟨TimerQueue.initial, [], false⟩

def delete (s : Lifetime) (address : ℕ) : Lifetime :=
  { s with
    queue := s.queue.delete address
    deleted := s.deleted ++ [s.queue.sequenceAt address] }

/-- `~TimerQueue`. -/
def destroy (s : Lifetime) : Lifetime :=
  let t := s.queue.pTimers.elems.foldl (fun t e => t.delete e.address) s
  { t with
    queue := { t.queue with timerfd := ⟨none, false⟩, pTimers := .empty }
    destroyed := true }

def step (s : Lifetime) : Event → Option Lifetime
  | .ofQueue e =>
    if s.destroyed then none
    else (TimerQueue.step s.queue e).map fun t =>
      { s with
        queue := t
        deleted := s.deleted ++ (s.queue.deletes e).map s.queue.sequenceAt }
  | .destroy => if s.destroyed = false ∧ s.queue.phase = .idle then some s.destroy else none

end Lifetime

/-- The timers deleted and those that live are, without repetition, the timers made. -/
structure Ledger (s : TimerQueue) (deleted : List (Option ℕ)) : Prop where
  named : Named s
  positive : ∀ n, s.Lives n → 1 ≤ n
  once : ∃ sequences : List ℕ, sequences.Nodup ∧ deleted = sequences.map some ∧
    ∀ n, n ∈ sequences ↔ (1 ≤ n ∧ n ≤ s.sequeue) ∧ ¬ s.Lives n

section Ledger

variable {s t : TimerQueue} {deleted : List (Option ℕ)}

lemma sequenceAt_eq_some {address n : ℕ} :
    s.sequenceAt address = some n ↔ ∃ timer, s.heap address = some timer ∧ timer.sequence = n :=
  Option.map_eq_some_iff

lemma Named.le (h : Named s) {n : ℕ} (hlives : s.Lives n) : n ≤ s.sequeue := by
  obtain ⟨address, hat⟩ := hlives
  obtain ⟨timer, htimer, rfl⟩ := sequenceAt_eq_some.mp hat
  exact h.fresh address timer htimer

/-- The address of a timer that lives is given by its number. -/
lemma Named.address_eq (h : Named s) {a b n : ℕ} (ha : s.sequenceAt a = some n)
    (hb : s.sequenceAt b = some n) : a = b := by
  obtain ⟨timer, htimer, hn⟩ := sequenceAt_eq_some.mp ha
  obtain ⟨timer', htimer', hn'⟩ := sequenceAt_eq_some.mp hb
  exact h.distinct a b timer timer' htimer htimer' (hn.trans hn'.symm)

lemma sequenceAt_write {address : ℕ} {object : Option Timer}
    (hheap : t.heap = (s.write address object).heap) (a : ℕ) :
    t.sequenceAt a = if a = address then object.map Timer.sequence else s.sequenceAt a := by
  split_ifs with ha
  · rw [sequenceAt, hheap, ha, heap_write_self]
  · rw [sequenceAt, sequenceAt, hheap, heap_write_of_ne ha]

lemma lives_write_none {address n : ℕ} (h : Named s) (hat : s.sequenceAt address = some n)
    (hheap : t.heap = (s.write address none).heap) (m : ℕ) :
    t.Lives m ↔ s.Lives m ∧ m ≠ n := by
  have hwrite := sequenceAt_write hheap
  constructor
  · rintro ⟨a, ha⟩
    rw [hwrite] at ha
    split_ifs at ha with hne
    · cases ha
    · refine ⟨⟨a, ha⟩, ?_⟩
      rintro rfl
      exact hne (h.address_eq ha hat)
  · rintro ⟨⟨a, ha⟩, hmn⟩
    have hne : a ≠ address := by
      rintro rfl
      exact hmn (Option.some.inj (ha.symm.trans hat))
    exact ⟨a, by rw [hwrite, if_neg hne, ha]⟩

/-- A `delete` of a timer that lives enters it into the ledger. -/
lemma Ledger.free (h : Ledger s deleted) {address n : ℕ} (hat : s.sequenceAt address = some n)
    (hnamed : Named t) (hheap : t.heap = (s.write address none).heap)
    (hsequeue : t.sequeue = s.sequeue) : Ledger t (deleted ++ [some n]) := by
  have hlives := lives_write_none h.named hat hheap
  obtain ⟨sequences, hnodup, rfl, hmem⟩ := h.once
  have hnot : n ∉ sequences := fun hn => ((hmem n).mp hn).2 ⟨address, hat⟩
  refine ⟨hnamed, fun m hm => h.positive m ((hlives m).mp hm).1, sequences ++ [n], ?_, by simp, ?_⟩
  · exact List.Nodup.append hnodup (List.nodup_singleton n) (by simpa using hnot)
  · intro m
    have hbounds := And.intro (h.positive n ⟨address, hat⟩) (h.named.le ⟨address, hat⟩)
    rw [List.mem_append, List.mem_singleton, hmem, hlives, hsequeue]
    by_cases hmn : m = n
    · subst hmn
      simp [hbounds]
    · simp [hmn]

/-- Where nothing is deleted, timers stay and at most one is made. -/
lemma Ledger.keep (h : Ledger s deleted) (hnamed : Named t)
    (hlives : (∀ n, t.Lives n ↔ s.Lives n) ∧ t.sequeue = s.sequeue ∨
      (∀ n, t.Lives n ↔ s.Lives n ∨ n = s.sequeue + 1) ∧ t.sequeue = s.sequeue + 1) :
    Ledger t deleted := by
  obtain ⟨sequences, hnodup, rfl, hmem⟩ := h.once
  rcases hlives with ⟨hlives, hsequeue⟩ | ⟨hlives, hsequeue⟩
  · refine ⟨hnamed, fun n hn => h.positive n ((hlives n).mp hn), sequences, hnodup, rfl, ?_⟩
    intro n
    rw [hmem, hlives, hsequeue]
  · refine ⟨hnamed, ?_, sequences, hnodup, rfl, ?_⟩
    · intro n hn
      rcases (hlives n).mp hn with hold | hnew
      · exact h.positive n hold
      · omega
    · intro n
      rw [hmem, hlives, hsequeue, not_or]
      constructor
      · rintro ⟨hbounds, hdead⟩
        exact ⟨by omega, hdead, by omega⟩
      · rintro ⟨hbounds, hdead, hold⟩
        exact ⟨by omega, hdead⟩

end Ledger

section Steps

variable {s t : TimerQueue}

lemma lives_congr (h : ∀ address, t.sequenceAt address = s.sequenceAt address) (n : ℕ) :
    t.Lives n ↔ s.Lives n :=
  exists_congr fun address => by rw [h]

lemma lives_of_heap (h : t.heap = s.heap) (n : ℕ) : t.Lives n ↔ s.Lives n :=
  lives_congr (fun address => by rw [sequenceAt, h]; rfl) n

lemma lives_write_some {address : ℕ} {timer : Timer} (hfree : s.heap address = none)
    (hheap : t.heap = (s.write address (some timer)).heap) (n : ℕ) :
    t.Lives n ↔ s.Lives n ∨ n = timer.sequence := by
  have hwrite := sequenceAt_write hheap
  constructor
  · rintro ⟨a, ha⟩
    rw [hwrite] at ha
    split_ifs at ha with hne
    · exact Or.inr (Option.some.inj ha).symm
    · exact Or.inl ⟨a, ha⟩
  · rintro (⟨a, ha⟩ | rfl)
    · have hne : a ≠ address := by
        rintro rfl
        rw [sequenceAt, hfree] at ha
        cases ha
      exact ⟨a, by rw [hwrite, if_neg hne, ha]⟩
    · exact ⟨address, by rw [hwrite, if_pos rfl, Option.map_some]⟩

lemma sequenceAt_restart {address : ℕ} {timer : Timer} (hobject : s.heap address = some timer)
    (timer' : Timer) (hsequence : timer'.sequence = timer.sequence)
    (hheap : t.heap = (s.write address (some timer')).heap) (a : ℕ) :
    t.sequenceAt a = s.sequenceAt a := by
  rw [sequenceAt_write hheap]
  split_ifs with ha
  · rw [ha, sequenceAt, hobject, Option.map_some, Option.map_some, hsequence]
  · rfl

/-- One timer that lives is deleted, or none and at most one is made. -/
inductive Deletion (s t : TimerQueue) (addresses : List ℕ) : Prop
  | one (address n : ℕ) (addresses : addresses = [address]) (object : s.sequenceAt address = some n)
      (heap : t.heap = (s.write address none).heap) (sequeue : t.sequeue = s.sequeue)
  | none (addresses : addresses = [])
      (lives : (∀ n, t.Lives n ↔ s.Lives n) ∧ t.sequeue = s.sequeue ∨
        (∀ n, t.Lives n ↔ s.Lives n ∨ n = s.sequeue + 1) ∧ t.sequeue = s.sequeue + 1)

lemma deletion_cancelInLoop (hs : Owned 0 s) (functors : List Functor) (timerId : TimerId)
    (garbage : ℤ) :
    Deletion s ({ s with pendingFunctors := functors }.cancelInLoop timerId garbage)
      (s.erases timerId garbage) := by
  have hsequeue : ({ s with pendingFunctors := functors }.cancelInLoop timerId garbage).sequeue =
      s.sequeue := by
    obtain ⟨log, hlog⟩ := { s with pendingFunctors := functors }.recordCancel_eq timerId
    unfold cancelInLoop eraseEntry
    rw [hlog]
    split <;> rfl
  have hheap := heap_cancelInLoop (s := { s with pendingFunctors := functors }) timerId garbage
  by_cases hmem : entry (s.getStamp timerId.timer garbage) timerId.timer ∈ s.pTimers
  · have hlive : s.heap timerId.timer ≠ Option.none := by
      refine (hs.live timerId.timer).mp ?_
      rw [add_zero]
      exact mem_holders.mpr (Or.inr (Or.inl ⟨_, hmem, rfl⟩))
    obtain ⟨timer, htimer⟩ := Option.ne_none_iff_exists'.mp hlive
    refine .one timerId.timer timer.sequence (if_pos hmem) ?_ (hheap.trans (if_pos hmem)) hsequeue
    rw [sequenceAt, htimer]
    rfl
  · exact .none (if_neg hmem) (Or.inl ⟨lives_of_heap (hheap.trans (if_neg hmem)), hsequeue⟩)

/-- No other step deletes. -/
lemma deletion_other {e : Event} (hcancel : s.cancelling e = none) (hreset : e.resetAt = none)
    (hstep : step s e = some t) : Deletion s t (s.deletes e) := by
  have hdeletes : s.deletes e = [] := by
    cases e with
    | cancelTimer => cases hcancel
    | resetOne => cases hreset
    | runFunctor =>
      simp only [cancelling] at hcancel
      simp only [deletes]
      split
      · rename_i hfunctors
        rw [hfunctors] at hcancel
        cases hcancel
      · rfl
    | _ => rfl
  refine .none hdeletes ?_
  cases object_step hstep with
  | same heap issued sequeue => exact Or.inl ⟨lives_of_heap heap, sequeue⟩
  | new address timer bound free fresh heap issued sequeue =>
    refine Or.inr ⟨?_, sequeue.trans fresh⟩
    rw [← fresh]
    exact lives_write_some free heap
  | cancel timerId cancels heap issued sequeue =>
    rw [hcancel] at cancels
    cases cancels
  | reset next expired timer now event phase object heap issued sequeue =>
    subst event
    cases hreset

lemma deletion_step (hs : Owned 0 s) {e : Event} (hstep : step s e = some t) :
    Deletion s t (s.deletes e) := by
  cases hcancel : s.cancelling e with
  | some timerId =>
    cases e with
    | cancelTimer timerId' garbage =>
      obtain ⟨-, -, rfl⟩ := step_cancelTimer hstep
      exact deletion_cancelInLoop hs s.pendingFunctors timerId' garbage
    | runFunctor garbage now =>
      obtain ⟨-, ⟨address, functors, timer, hfunctors, -, -⟩ |
        ⟨timerId', functors, hfunctors, rfl⟩⟩ := step_runFunctor hstep
      · simp only [cancelling, hfunctors] at hcancel
        cases hcancel
      · simp only [deletes, hfunctors]
        exact deletion_cancelInLoop hs functors timerId' garbage
    | _ => cases hcancel
  | none =>
    cases e with
    | resetOne now =>
      obtain ⟨next, expired, timer, hphase, htimer, rfl⟩ := step_resetOne hstep
      simp only [deletes, hphase, htimer, Option.any_some]
      unfold resetOne
      split_ifs with hrepeat
      · exact .none rfl
          (Or.inl ⟨lives_congr (sequenceAt_restart htimer (timer.restart now) rfl rfl), rfl⟩)
      · refine .one next.address timer.sequence rfl ?_ rfl rfl
        rw [sequenceAt, htimer]
        rfl
    | _ => exact deletion_other hcancel rfl hstep

lemma named_delete (h : Named s) (address : ℕ) : Named (s.delete address) := by
  have hkept : ∀ {a timer}, (s.delete address).heap a = some timer → s.heap a = some timer := by
    intro a timer htimer
    by_cases ha : a = address
    · rw [ha, delete, heap_write_self] at htimer
      cases htimer
    · rwa [delete, heap_write_of_ne ha] at htimer
  refine ⟨fun a timer ha => h.fresh a timer (hkept ha), ?_⟩
  intro a b timer timer' ha hb
  exact h.distinct a b timer timer' (hkept ha) (hkept hb)

lemma ledger_step {deleted : List (Option ℕ)} (hs : Owned 0 s) (h : Ledger s deleted) {e : Event}
    (hstep : step s e = some t) : Ledger t (deleted ++ (s.deletes e).map s.sequenceAt) := by
  have hnamed := named_heapStep h.named (heapStep_step hstep)
  cases deletion_step hs hstep with
  | one address n addresses object heap sequeue =>
    rw [addresses, List.map_singleton, object]
    exact h.free object hnamed heap sequeue
  | none addresses lives =>
    rw [addresses, List.map_nil, List.append_nil]
    exact h.keep hnamed lives

end Steps

namespace Lifetime

/-- Before the destructor and after it. -/
structure Inv (s : Lifetime) : Prop where
  owned : Owned 0 s.queue
  ledger : Ledger s.queue s.deleted
  ended : s.destroyed = true → s.queue.phase = .idle ∧ s.queue.pTimers = .empty

variable {s t : Lifetime}

lemma ledger_delete (h : Ledger s.queue s.deleted) {address : ℕ}
    (hlive : s.queue.heap address ≠ none) :
    Ledger (s.delete address).queue (s.delete address).deleted := by
  obtain ⟨timer, htimer⟩ := Option.ne_none_iff_exists'.mp hlive
  have hat : s.queue.sequenceAt address = some timer.sequence := by
    rw [sequenceAt, htimer]
    rfl
  simp only [Lifetime.delete, hat]
  exact h.free hat (named_delete h.named address) rfl rfl

/-- The loop of the destructor: every entry's timer is alive when its turn comes. -/
lemma foldl_delete (entries : List Entry) (h : Ledger s.queue s.deleted)
    (hnodup : (entries.map Entry.address).Nodup)
    (hlive : ∀ address ∈ entries.map Entry.address, s.queue.heap address ≠ none) :
    Ledger (entries.foldl (fun t e => t.delete e.address) s).queue
        (entries.foldl (fun t e => t.delete e.address) s).deleted ∧
      (entries.foldl (fun t e => t.delete e.address) s).queue = { s.queue with
        heap := fun address =>
          if address ∈ entries.map Entry.address then none else s.queue.heap address } := by
  induction entries generalizing s with
  | nil => exact ⟨h, by simp⟩
  | cons e entries ih =>
    rw [List.map_cons, List.nodup_cons] at hnodup
    have hother : ∀ {address}, address ≠ e.address →
        (s.delete e.address).queue.heap address = s.queue.heap address :=
      fun hne => heap_write_of_ne hne none
    have hrest : ∀ address ∈ entries.map Entry.address,
        (s.delete e.address).queue.heap address ≠ none := by
      intro address hmem
      have hne : address ≠ e.address := fun heq => hnodup.1 (heq ▸ hmem)
      rw [hother hne]
      exact hlive address (List.mem_cons_of_mem _ hmem)
    have hfirst := ledger_delete h (hlive e.address List.mem_cons_self)
    obtain ⟨hledger, hqueue⟩ := ih hfirst hnodup.2 hrest
    refine ⟨hledger, ?_⟩
    rw [List.foldl_cons, hqueue]
    have hheap : (fun address => if address ∈ entries.map Entry.address then none
        else (s.delete e.address).queue.heap address) = fun address =>
        if address ∈ (e :: entries).map Entry.address then none else s.queue.heap address := by
      funext address
      by_cases hhead : address = e.address
      · have hnone : (s.delete e.address).queue.heap address = none := by
          rw [hhead]
          exact heap_write_self e.address none
        simp [hhead ▸ hnone, hhead]
      · simp only [hother hhead, List.map_cons, List.mem_cons, hhead, false_or]
    rw [hheap]
    rfl

lemma address_live (hs : Owned 0 s.queue) : ∀ address ∈ s.queue.pTimers.elems.map Entry.address,
    s.queue.heap address ≠ none := by
  intro address hmem
  refine (hs.live address).mp ?_
  rw [add_zero, holders]
  exact Multiset.mem_add.mpr (Or.inl (Multiset.mem_add.mpr (Or.inr hmem)))

lemma inv_destroy (hs : Inv s) (hphase : s.queue.phase = .idle) : Inv s.destroy := by
  have hnodup := hs.owned.nodup
  rw [add_zero, holders, Multiset.nodup_add, Multiset.nodup_add] at hnodup
  obtain ⟨⟨hpending, hset, hapart⟩, -, -⟩ := hnodup
  obtain ⟨hledger, hqueue⟩ := foldl_delete s.queue.pTimers.elems hs.ledger
    (Multiset.coe_nodup.mp hset) (address_live hs.owned)
  have hholders : s.destroy.queue.holders =
      ↑(s.queue.pendingFunctors.filterMap Functor.adds) := by
    simp [destroy, hqueue, holders, SortedSet.empty, hphase, Phase.batch]
  refine ⟨⟨?_, ?_, ?_⟩, ?_, ?_⟩
  · rw [add_zero, hholders]
    exact hpending
  · intro address
    rw [add_zero, hholders]
    have hlive := hs.owned.live address
    have hheap : s.destroy.queue.heap address =
        if address ∈ s.queue.pTimers.elems.map Entry.address then none
        else s.queue.heap address := by
      simp only [destroy, hqueue]
    simp only [add_zero, holders, hphase, Phase.batch, List.map_nil, Multiset.coe_nil,
      Multiset.mem_add] at hlive
    rw [hheap]
    by_cases hmem : address ∈ s.queue.pTimers.elems.map Entry.address
    · rw [if_pos hmem]
      exact iff_of_false (fun hadds => Multiset.disjoint_left.mp hapart hadds hmem)
        (fun hne => hne rfl)
    · rw [if_neg hmem, ← hlive]
      exact (or_iff_left hmem).symm
  · intro e he
    cases he
  · exact ⟨⟨hledger.named.fresh, hledger.named.distinct⟩, hledger.positive, hledger.once⟩
  · intro _
    refine ⟨?_, rfl⟩
    simp only [destroy, hqueue]
    exact hphase

lemma inv_step (hs : Inv s) {e : Event} (h : step s e = some t) : Inv t := by
  cases e with
  | ofQueue e =>
    simp only [step, Option.ite_none_left_eq_some, Option.map_eq_some_iff] at h
    obtain ⟨hdestroyed, q, hq, rfl⟩ := h
    exact ⟨owned_step hs.owned hq, ledger_step hs.owned hs.ledger hq,
      fun hended => absurd hended hdestroyed⟩
  | destroy =>
    simp only [step, Option.ite_none_right_eq_some, Option.some.injEq] at h
    obtain ⟨⟨-, hphase⟩, rfl⟩ := h
    exact inv_destroy hs hphase

lemma inv_initial : Inv initial := by
  have hdead : ∀ n, ¬ TimerQueue.initial.Lives n := by
    rintro n ⟨address, hat⟩
    cases hat
  refine ⟨owned_initial, ⟨named_initial, fun n hn => absurd hn (hdead n), [], List.nodup_nil, rfl,
    ?_⟩, fun hended => by cases hended⟩
  intro n
  have hbounds : ¬ (1 ≤ n ∧ n ≤ TimerQueue.initial.sequeue) := by
    rintro ⟨hpos, hle⟩
    exact absurd (hpos.trans hle) (by decide)
  exact iff_of_false List.not_mem_nil fun hn => hbounds hn.1

lemma ledger_mem (h : Ledger s.queue s.deleted) {n : ℕ} :
    some n ∈ s.deleted ↔ (1 ≤ n ∧ n ≤ s.queue.sequeue) ∧ ¬ s.queue.Lives n := by
  obtain ⟨sequences, -, hdeleted, hmem⟩ := h.once
  rw [hdeleted, ← hmem]
  simp

/-- A timer fires, a repeating one is put back, and another thread's addition is still pending when
the queue is destroyed. -/
def pendingAtEnd : List Event :=
  [.ofQueue (.addTimer 16 100 0 50), .ofQueue (.addTimer 32 100 1 50), .ofQueue .expire,
    .ofQueue (.handleRead 100), .ofQueue .timeout, .ofQueue .timeout, .ofQueue .beginReset,
    .ofQueue (.resetOne 101), .ofQueue (.resetOne 102), .ofQueue (.rearm 103),
    .ofQueue (.queueTimer 48 500 0), .destroy]

end Lifetime

end RpcMuduo.TimerQueue
