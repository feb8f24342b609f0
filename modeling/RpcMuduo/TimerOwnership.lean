import RpcMuduo.TimerSteps

/-!
# Where a timer is

A `Timer` that lives is in exactly one place: in a queued addition, in the set, in the batch of
expired timers that `reset` has not come to, or in the hand of the operation at work.
-/
namespace RpcMuduo.TimerQueue
open Run

def Functor.adds : Functor → Option ℕ
  | .addTimerInLoop address => some address
  | .cancelInLoop _ => none

/-- The expired entries that are still to be handled. -/
def Phase.batch : Phase → List Entry
  | .idle => []
  | .firing started expired => started ++ expired
  | .restarting expired => expired

/-- The addresses of the entries in the batch whose callback has been started. -/
def Phase.fired : Phase → List ℕ
  | .idle => []
  | .firing started _ => started.map Entry.address
  | .restarting expired => expired.map Entry.address

def holders (s : TimerQueue) : Multiset ℕ :=
  ↑(s.pendingFunctors.filterMap Functor.adds) + ↑(s.pTimers.elems.map Entry.address) +
    ↑(s.phase.batch.map Entry.address)

/-- No address is held twice, those held are those where a `Timer` lives, and the set is keyed by
the stamps. -/
structure Owned (hand : Multiset ℕ) (s : TimerQueue) : Prop where
  nodup : (s.holders + hand).Nodup
  live : ∀ address, address ∈ s.holders + hand ↔ s.heap address ≠ none
  key : ∀ e ∈ s.pTimers, ∀ timer, s.heap e.address = some timer → timer.stamp = e.stamp

/-- No sequence number belongs to two timers. -/
structure Named (s : TimerQueue) : Prop where
  fresh : ∀ address timer, s.heap address = some timer → timer.sequence ≤ s.sequeue
  distinct : ∀ a b timer timer', s.heap a = some timer → s.heap b = some timer' →
    timer.sequence = timer'.sequence → a = b

/-- The timer was one-shot and its callback has been started, or no longer lives. -/
def Spent (s : TimerQueue) (sequence : ℕ) : Prop :=
  sequence ≤ s.sequeue ∧ ∀ address timer, s.heap address = some timer →
    timer.sequence = sequence → timer.isRepeat = false ∧ address ∈ s.phase.fired

/-- What one step leaves in the heap: timers that were there, with their interval, and possibly a
new one. -/
structure HeapStep (s t : TimerQueue) : Prop where
  sequeue : s.sequeue ≤ t.sequeue
  objects : ∃ new, ∀ address timer', t.heap address = some timer' →
    (∃ timer, s.heap address = some timer ∧ timer.sequence = timer'.sequence ∧
      timer.isRepeat = timer'.isRepeat) ∨
    (address = new ∧ timer'.sequence = s.sequeue + 1 ∧ t.sequeue = s.sequeue + 1)

@[simp] lemma entry_address (stamp : ℤ) (address : ℕ) : (entry stamp address).address = address :=
  rfl

@[simp] lemma entry_stamp (stamp : ℤ) (address : ℕ) : (entry stamp address).stamp = stamp := rfl

lemma stamp_mono {e e' : Entry} (h : e ≤ e') : e.stamp ≤ e'.stamp := by
  rcases Prod.Lex.le_iff.mp h with hlt | ⟨heq, -⟩
  · exact hlt.le
  · exact heq.le

section Holders

variable {s : TimerQueue}

lemma mem_holders {address : ℕ} : address ∈ s.holders ↔
    .addTimerInLoop address ∈ s.pendingFunctors ∨ (∃ e ∈ s.pTimers, e.address = address) ∨
      ∃ e ∈ s.phase.batch, e.address = address := by
  have hadds : address ∈ s.pendingFunctors.filterMap Functor.adds ↔
      .addTimerInLoop address ∈ s.pendingFunctors := by
    rw [List.mem_filterMap]
    constructor
    · rintro ⟨functor, hmem, hadds⟩
      cases functor with
      | addTimerInLoop a =>
        obtain rfl := Option.some.inj hadds
        exact hmem
      | cancelInLoop timerId => cases hadds
    · intro hmem
      exact ⟨_, hmem, rfl⟩
  simp only [holders, Multiset.mem_add, Multiset.mem_coe, hadds, List.mem_map, or_assoc]
  rfl

lemma holders_insert {address : ℕ} {timer : Timer}
    (h : entry timer.stamp address ∉ s.pTimers) :
    (s.insert address timer).holders = address ::ₘ s.holders := by
  have hset := congrArg (Multiset.map Entry.address) (SortedSet.coe_insert h)
  simp only [Multiset.map_coe, Multiset.map_cons, entry_address] at hset
  simp only [holders, insert, hset, Multiset.cons_add, Multiset.add_cons]

lemma holders_erase {e : Entry} (h : e ∈ s.pTimers) :
    e.address ::ₘ { s with pTimers := s.pTimers.erase e }.holders = s.holders := by
  have hset := congrArg (Multiset.map Entry.address) (SortedSet.cons_coe_erase h)
  simp only [Multiset.map_coe, Multiset.map_cons] at hset
  simp only [holders, ← hset, Multiset.cons_add, Multiset.add_cons]

lemma holders_getExpired (h : s.phase = .idle) (now : ℤ) :
    (s.getExpired now).holders = s.holders := by
  rw [holders, holders, h, getExpired,
    ← SortedSet.below_append_above s.pTimers (entry now UINTPTR_MAX)]
  simp only [Phase.batch, List.map_append, List.nil_append, List.map_nil, ← Multiset.coe_add,
    Multiset.coe_nil, add_zero]
  rw [add_assoc, add_comm (↑(List.map Entry.address (SortedSet.above _ _).elems) : Multiset ℕ)]

lemma holders_queueInLoop (functor : Functor) :
    (s.queueInLoop functor).holders = s.holders + ↑functor.adds.toList := by
  have hadds : [functor].filterMap Functor.adds = functor.adds.toList := by
    cases functor <;> rfl
  simp only [holders, queueInLoop, List.filterMap_append, hadds, ← Multiset.coe_add]
  abel

lemma holders_takeFunctor {functor : Functor} {functors : List Functor}
    (h : s.pendingFunctors = functor :: functors) :
    { s with pendingFunctors := functors }.holders + ↑functor.adds.toList = s.holders := by
  have hadds : (functor :: functors).filterMap Functor.adds =
      functor.adds.toList ++ functors.filterMap Functor.adds := by
    cases functor <;> rfl
  simp only [holders, h, hadds, ← Multiset.coe_add]
  abel

lemma holders_takeExpired {e : Entry} {expired : List Entry}
    (h : s.phase = .restarting (e :: expired)) :
    { s with phase := .restarting expired }.holders + {e.address} = s.holders := by
  simp only [holders, h, Phase.batch, List.map_cons, ← Multiset.cons_coe, ← Multiset.singleton_add]
  abel

end Holders

section Owned

variable {s t : TimerQueue} {hand hand' : Multiset ℕ}

/-- Moving an address from one place to another. -/
lemma owned_of_holders (h : Owned hand s) (hheap : t.heap = s.heap)
    (hholders : t.holders + hand' = s.holders + hand) (hset : ∀ e ∈ t.pTimers, e ∈ s.pTimers) :
    Owned hand' t where
  nodup := hholders ▸ h.nodup
  live := by
    intro address
    rw [hholders, hheap]
    exact h.live address
  key := by
    intro e he
    rw [hheap]
    exact h.key e (hset e he)

lemma not_mem_of_hand {address : ℕ} (h : Owned {address} s) : address ∉ s.holders := by
  have hnodup := h.nodup
  rw [add_comm, Multiset.singleton_add, Multiset.nodup_cons] at hnodup
  exact hnodup.1

lemma not_mem_set_of_hand {address : ℕ} (h : Owned {address} s) {e : Entry} (he : e ∈ s.pTimers) :
    e.address ≠ address := by
  rintro rfl
  exact not_mem_of_hand h (mem_holders.mpr (Or.inr (Or.inl ⟨e, he, rfl⟩)))

lemma key_write (h : Owned hand s) {address : ℕ} (hset : ∀ e ∈ s.pTimers, e.address ≠ address)
    (object : Option Timer) : ∀ e ∈ s.pTimers, ∀ timer,
      (s.write address object).heap e.address = some timer → timer.stamp = e.stamp := by
  intro e he timer htimer
  rw [heap_write_of_ne (hset e he)] at htimer
  exact h.key e he timer htimer

lemma owned_newTimer (h : Owned 0 s) {address : ℕ} (hfree : s.heap address = none)
    (timer : Timer) : Owned {address} (s.newTimer address timer) := by
  have hnot : address ∉ s.holders := fun hmem => (h.live address).mp (by simpa using hmem) hfree
  have hset : ∀ e ∈ s.pTimers, e.address ≠ address := by
    rintro e he rfl
    exact hnot (mem_holders.mpr (Or.inr (Or.inl ⟨e, he, rfl⟩)))
  have hnodup : (s.holders + {address}).Nodup := by
    rw [add_comm, Multiset.singleton_add]
    exact Multiset.nodup_cons.mpr ⟨hnot, by simpa using h.nodup⟩
  refine ⟨hnodup, ?_, key_write h hset (some timer)⟩
  intro a
  change a ∈ s.holders + {address} ↔ (s.write address (some timer)).heap a ≠ none
  by_cases ha : a = address
  · simp [ha]
  · simpa [ha] using h.live a

lemma owned_insert {address : ℕ} (h : Owned {address} s) {timer : Timer}
    (htimer : s.heap address = some timer) : Owned 0 (s.insert address timer) := by
  have hnot : entry timer.stamp address ∉ s.pTimers := fun hmem => not_mem_set_of_hand h hmem rfl
  have hholders : (s.insert address timer).holders + 0 = s.holders + {address} := by
    rw [holders_insert hnot, add_zero, add_comm, Multiset.singleton_add]
  refine ⟨hholders ▸ h.nodup, ?_, ?_⟩
  · intro a
    rw [hholders]
    exact h.live a
  · intro e he timer' htimer'
    rcases SortedSet.mem_insert.mp he with rfl | he
    · rw [entry_stamp, ← Option.some.inj (htimer.symm.trans htimer')]
    · exact h.key e he timer' htimer'

lemma owned_delete {address : ℕ} (h : Owned {address} s) : Owned 0 (s.delete address) := by
  have hnot := not_mem_of_hand h
  have hnodup : (s.holders + 0).Nodup := by
    rw [add_zero]
    exact (Multiset.nodup_add.mp h.nodup).1
  refine ⟨hnodup, ?_, key_write h (fun e he => not_mem_set_of_hand h he) none⟩
  intro a
  have hlive := h.live a
  rw [Multiset.mem_add, Multiset.mem_singleton] at hlive
  change a ∈ s.holders + 0 ↔ (s.write address none).heap a ≠ none
  by_cases ha : a = address
  · simpa [ha] using hnot
  · simpa [ha] using hlive

lemma owned_restart {address : ℕ} (h : Owned {address} s) (timer : Timer) :
    Owned {address} (s.write address (some timer)) := by
  refine ⟨h.nodup, ?_, key_write h (fun e he => not_mem_set_of_hand h he) (some timer)⟩
  intro a
  change a ∈ s.holders + {address} ↔ (s.write address (some timer)).heap a ≠ none
  by_cases ha : a = address
  · simp [ha]
  · simpa [ha] using h.live a

lemma owned_addTimerInLoop {address : ℕ} (h : Owned {address} s) {timer : Timer}
    (htimer : s.heap address = some timer) (now : ℤ) :
    Owned 0 (s.addTimerInLoop address timer now) := by
  have hinsert := owned_insert h htimer
  unfold addTimerInLoop
  split
  · exact owned_of_holders hinsert rfl rfl fun _ he => he
  · exact hinsert

lemma owned_recordCancel (h : Owned 0 s) (timerId : TimerId) :
    Owned 0 (s.recordCancel timerId) := by
  unfold recordCancel
  split
  · exact owned_of_holders h rfl rfl fun _ he => he
  · exact h

lemma owned_eraseEntry (h : Owned 0 s) (e : Entry) : Owned 0 (s.eraseEntry e) := by
  unfold eraseEntry
  split
  · rename_i he
    refine owned_delete (owned_of_holders h rfl ?_ fun e' he' => (SortedSet.mem_erase.mp he').2)
    rw [← holders_erase he, add_zero, add_comm, Multiset.singleton_add]
  · exact h

lemma owned_cancelInLoop (h : Owned 0 s) (timerId : TimerId) (garbage : ℤ) :
    Owned 0 (s.cancelInLoop timerId garbage) :=
  owned_eraseEntry (owned_recordCancel h timerId) _

lemma owned_resetOne {address : ℕ} (h : Owned {address} s) (timer : Timer) (now : ℤ) :
    Owned 0 (s.resetOne address timer now) := by
  unfold resetOne
  split
  · exact owned_insert (owned_restart h (timer.restart now)) (heap_write_self ..)
  · exact owned_delete h

lemma owned_initial : Owned 0 initial := by
  refine ⟨?_, ?_, ?_⟩
  · simp [initial, holders, SortedSet.empty, Phase.batch]
  · simp [initial, holders, SortedSet.empty, Phase.batch]
  · simp [initial]

lemma owned_setPhase (h : Owned 0 s) {phase : Phase} (hbatch : phase.batch = s.phase.batch) :
    Owned 0 { s with phase := phase } :=
  owned_of_holders h rfl (by simp only [holders, hbatch]) fun _ he => he

lemma owned_takeFunctor (h : Owned 0 s) {functor : Functor} {functors : List Functor}
    (hfunctors : s.pendingFunctors = functor :: functors) :
    Owned ↑functor.adds.toList { s with pendingFunctors := functors } :=
  owned_of_holders h rfl (by rw [holders_takeFunctor hfunctors, add_zero]) fun _ he => he

lemma owned_takeExpired (h : Owned 0 s) {e : Entry} {expired : List Entry}
    (hphase : s.phase = .restarting (e :: expired)) :
    Owned {e.address} { s with phase := .restarting expired } :=
  owned_of_holders h rfl (by rw [holders_takeExpired hphase, add_zero]) fun _ he => he

lemma owned_step (h : Owned 0 s) {e : Event} (hstep : step s e = some t) : Owned 0 t := by
  cases e with
  | addTimer address when interval now =>
    obtain ⟨-, hfree, -, rfl⟩ := step_addTimer hstep
    exact owned_addTimerInLoop (owned_newTimer h hfree _) (heap_write_self ..) now
  | queueTimer address when interval =>
    obtain ⟨-, hfree, rfl⟩ := step_queueTimer hstep
    refine owned_of_holders (owned_newTimer h hfree ⟨when, interval, s.sequeue + 1⟩) rfl ?_
      fun _ he => he
    rw [holders_queueInLoop, add_zero]
    rfl
  | cancelTimer timerId garbage =>
    obtain ⟨-, -, rfl⟩ := step_cancelTimer hstep
    exact owned_cancelInLoop h timerId garbage
  | queueCancel timerId =>
    obtain ⟨-, rfl⟩ := step_queueCancel hstep
    exact owned_of_holders h rfl (by simp [holders_queueInLoop, Functor.adds]) fun _ he => he
  | runFunctor garbage now =>
    obtain ⟨-, hcases⟩ := step_runFunctor hstep
    rcases hcases with ⟨address, functors, timer, hfunctors, htimer, rfl⟩ |
      ⟨timerId, functors, hfunctors, rfl⟩
    · have htake := owned_takeFunctor h hfunctors
      exact owned_addTimerInLoop htake htimer now
    · have htake := owned_takeFunctor h hfunctors
      exact owned_cancelInLoop htake timerId garbage
  | expire =>
    obtain rfl := step_expire hstep
    exact owned_of_holders h rfl rfl fun _ he => he
  | handleRead now =>
    obtain ⟨hphase, rfl⟩ := step_handleRead hstep
    refine owned_of_holders h rfl (by rw [holders_getExpired hphase]) ?_
    intro e he
    exact (SortedSet.mem_above.mp he).1
  | timeout =>
    obtain ⟨started, e, expired, timer, hphase, -, rfl⟩ := step_timeout hstep
    have hset : Owned 0 { s with phase := .firing (started ++ [e]) expired } :=
      owned_setPhase h (by simp [hphase, Phase.batch])
    exact owned_of_holders hset rfl rfl fun _ he => he
  | beginReset =>
    obtain ⟨started, hphase, rfl⟩ := step_beginReset hstep
    exact owned_setPhase h (by simp [hphase, Phase.batch])
  | resetOne now =>
    obtain ⟨e, expired, timer, hphase, -, rfl⟩ := step_resetOne hstep
    have htake := owned_takeExpired h hphase
    exact owned_resetOne htake timer now
  | rearm now =>
    obtain ⟨hphase, hcases⟩ := step_rearm hstep
    have hset : Owned 0 { s with phase := .idle } :=
      owned_setPhase h (by simp [hphase, Phase.batch])
    rcases hcases with ⟨-, rfl⟩ | ⟨e, timer, -, -, rfl⟩
    · exact hset
    · unfold rearm
      split
      · exact owned_of_holders hset rfl rfl fun _ he => he
      · exact hset

end Owned

section Named

variable {s t : TimerQueue}

lemma heapStep_of_le (hsequeue : s.sequeue ≤ t.sequeue)
    (hheap : ∀ address timer', t.heap address = some timer' →
      ∃ timer, s.heap address = some timer ∧ timer.sequence = timer'.sequence ∧
        timer.isRepeat = timer'.isRepeat) : HeapStep s t :=
  ⟨hsequeue, 0, fun address timer' htimer' => Or.inl (hheap address timer' htimer')⟩

lemma heapStep_same (hsequeue : t.sequeue = s.sequeue) (hheap : t.heap = s.heap) : HeapStep s t :=
  heapStep_of_le hsequeue.ge fun _ timer' htimer' => ⟨timer', hheap ▸ htimer', rfl, rfl⟩

lemma heapStep_newTimer (address : ℕ) (timer : Timer) (htimer : timer.sequence = s.sequeue + 1)
    (hsequeue : t.sequeue = timer.sequence)
    (hheap : t.heap = (s.write address (some timer)).heap) : HeapStep s t := by
  refine ⟨by omega, address, ?_⟩
  intro a timer' htimer'
  rw [hheap] at htimer'
  by_cases ha : a = address
  · subst ha
    rw [heap_write_self, Option.some.injEq] at htimer'
    exact Or.inr ⟨rfl, htimer' ▸ htimer, by omega⟩
  · rw [heap_write_of_ne ha] at htimer'
    exact Or.inl ⟨timer', htimer', rfl, rfl⟩

lemma heapStep_write (address : ℕ) (object : Option Timer) (hsequeue : t.sequeue = s.sequeue)
    (hobject : ∀ timer', object = some timer' → ∃ timer, s.heap address = some timer ∧
      timer.sequence = timer'.sequence ∧ timer.isRepeat = timer'.isRepeat)
    (hheap : t.heap = (s.write address object).heap) : HeapStep s t := by
  refine heapStep_of_le hsequeue.ge ?_
  intro a timer' htimer'
  rw [hheap] at htimer'
  by_cases ha : a = address
  · subst ha
    rw [heap_write_self] at htimer'
    exact hobject timer' htimer'
  · rw [heap_write_of_ne ha] at htimer'
    exact ⟨timer', htimer', rfl, rfl⟩

lemma heapStep_step {e : Event} (hstep : step s e = some t) : HeapStep s t := by
  cases object_step hstep with
  | same heap issued sequeue => exact heapStep_same sequeue heap
  | new address timer bound free fresh heap issued sequeue =>
    exact heapStep_newTimer address timer fresh sequeue heap
  | cancel timerId cancels heap issued sequeue =>
    exact heapStep_write timerId.timer none sequeue (by simp) heap
  | reset next expired timer now event phase object heap issued sequeue =>
    refine heapStep_write next.address _ sequeue ?_ heap
    intro timer' htimer'
    obtain ⟨-, rfl⟩ : timer.isRepeat = true ∧ timer.restart now = timer' := by
      simpa using htimer'
    exact ⟨timer, object, rfl, rfl⟩

lemma named_heapStep (hs : Named s) (h : HeapStep s t) : Named t := by
  obtain ⟨new, hobjects⟩ := h.objects
  refine ⟨?_, ?_⟩
  · intro address timer' htimer'
    rcases hobjects address timer' htimer' with ⟨timer, htimer, hsequence, -⟩ | ⟨-, hnew, hsequeue⟩
    · rw [← hsequence]
      exact (hs.fresh address timer htimer).trans h.sequeue
    · omega
  · intro a b timer timer' ha hb hsequence
    rcases hobjects a timer ha with ⟨timer₀, ha₀, hseq, -⟩ | ⟨rfl, hnew, -⟩
    · have hfresh := hs.fresh a timer₀ ha₀
      rcases hobjects b timer' hb with ⟨timer₁, hb₁, hseq', -⟩ | ⟨-, hnew, -⟩
      · exact hs.distinct a b timer₀ timer₁ ha₀ hb₁ (by omega)
      · omega
    · rcases hobjects b timer' hb with ⟨timer₁, hb₁, hseq', -⟩ | ⟨rfl, -, -⟩
      · have hfresh := hs.fresh b timer₁ hb₁
        omega
      · rfl

lemma named_initial : Named initial := ⟨by simp [initial], by simp [initial]⟩

/-- An address leaves the fired part of the batch only when `reset` comes to it. -/
lemma fired_step {e : Event} (hstep : step s e = some t) {address : ℕ}
    (hfired : address ∈ s.phase.fired) : address ∈ t.phase.fired ∨ t.heap address = none ∨
      ∃ timer, s.heap address = some timer ∧ timer.isRepeat = true := by
  cases phase_step hstep with
  | stay resetAt readAt phase log => exact Or.inl (phase ▸ hfired)
  | cancel timerId cancels live phase log => exact Or.inl (phase ▸ hfired)
  | read now event phase eq =>
    rw [phase] at hfired
    cases hfired
  | fire started next expired timer event phase object eq =>
    subst eq
    rw [phase] at hfired
    left
    rw [call, Phase.fired, List.map_append]
    exact List.mem_append_left _ hfired
  | turn started event phase eq =>
    subst eq
    rw [phase] at hfired
    exact Or.inl hfired
  | reset next expired timer now event phase object eq =>
    subst eq
    rw [phase, Phase.fired, List.map_cons, List.mem_cons] at hfired
    rcases hfired with rfl | hfired
    · right
      unfold resetOne
      split
      · rename_i hrepeat
        exact Or.inr ⟨timer, object, hrepeat⟩
      · exact Or.inl (heap_write_self ..)
    · rw [phase_resetOne]
      exact Or.inl hfired
  | finish now event phase idle heap pTimers log =>
    rw [phase] at hfired
    cases hfired

lemma spent_step {q : ℕ} (h : Spent s q) {e : Event} (hstep : step s e = some t) : Spent t q := by
  have hheap := heapStep_step hstep
  obtain ⟨new, hobjects⟩ := hheap.objects
  refine ⟨h.1.trans hheap.sequeue, ?_⟩
  intro address timer' htimer' hq
  have hle := h.1
  rcases hobjects address timer' htimer' with ⟨timer, htimer, hsequence, hrepeat⟩ | ⟨-, hnew, -⟩
  · obtain ⟨honce, hfired⟩ := h.2 address timer htimer (by omega)
    refine ⟨hrepeat ▸ honce, ?_⟩
    rcases fired_step hstep hfired with hfired | hnone | ⟨timer₀, htimer₀, htrue⟩
    · exact hfired
    · rw [hnone] at htimer'
      cases htimer'
    · rw [htimer, Option.some.injEq] at htimer₀
      rw [htimer₀, htrue] at honce
      cases honce
  · omega

end Named

section Spent

variable {s t : TimerQueue}

lemma exists_of_fired {address : ℕ} (h : address ∈ s.phase.fired) :
    ∃ e ∈ s.phase.batch, e.address = address := by
  cases hphase : s.phase with
  | idle =>
    rw [hphase] at h
    cases h
  | firing started expired =>
    rw [hphase] at h
    obtain ⟨e, he, rfl⟩ := List.mem_map.mp h
    exact ⟨e, List.mem_append_left _ he, rfl⟩
  | restarting expired =>
    rw [hphase] at h
    exact List.mem_map.mp h

lemma nodup_batch (h : Owned 0 s) : (s.phase.batch.map Entry.address).Nodup := by
  have hnodup := h.nodup
  rw [add_zero, holders, Multiset.nodup_add] at hnodup
  exact Multiset.coe_nodup.mp hnodup.2.1

lemma set_ne_batch (h : Owned 0 s) {e e' : Entry} (he : e ∈ s.pTimers)
    (he' : e' ∈ s.phase.batch) : e.address ≠ e'.address := by
  intro heq
  have hnodup := h.nodup
  rw [add_zero, holders, Multiset.nodup_add] at hnodup
  have hset : e.address ∈ (↑(s.pTimers.elems.map Entry.address) : Multiset ℕ) :=
    List.mem_map_of_mem he
  have hbatch : e.address ∈ (↑(s.phase.batch.map Entry.address) : Multiset ℕ) :=
    heq ▸ List.mem_map_of_mem he'
  exact Multiset.disjoint_left.mp hnodup.2.2 (Multiset.mem_add.mpr (Or.inr hset)) hbatch

lemma spent_not_mem_set (h : Owned 0 s) {q : ℕ} (hspent : Spent s q) {e : Entry}
    (he : e ∈ s.pTimers) {timer : Timer} (htimer : s.heap e.address = some timer) :
    timer.sequence ≠ q := by
  intro hq
  obtain ⟨-, hfired⟩ := hspent.2 e.address timer htimer hq
  obtain ⟨e', he', haddress⟩ := exists_of_fired hfired
  exact set_ne_batch h he he' haddress.symm

lemma spent_not_next (h : Owned 0 s) {q : ℕ} (hspent : Spent s q) {started expired : List Entry}
    {e : Entry} (hphase : s.phase = .firing started (e :: expired)) {timer : Timer}
    (htimer : s.heap e.address = some timer) : timer.sequence ≠ q := by
  intro hq
  obtain ⟨-, hfired⟩ := hspent.2 e.address timer htimer hq
  have hnodup := nodup_batch h
  rw [hphase, Phase.fired] at hfired
  rw [hphase, Phase.batch, List.map_append, List.map_cons] at hnodup
  exact (List.nodup_append.mp hnodup).2.2 _ hfired _ List.mem_cons_self rfl

end Spent

end RpcMuduo.TimerQueue
