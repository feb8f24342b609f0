import RpcMuduo.TimerCancel

/-!
# One batch of expired timers

`handleRead` from `getExpired` to the end of `reset`, while its callbacks add timers and cancel
none.
-/
namespace RpcMuduo.TimerQueue
open Run

/-- The event runs no `cancelInLoop`. -/
def Uncancelled (s : TimerQueue) (e : Event) : Prop := s.cancelling e = none

/-- The event comes before the end of `handleRead`. -/
def InBatch (s : TimerQueue) (e : Event) : Prop := s.Uncancelled e ∧ ∀ now, e ≠ .rearm now

section Batch

variable (s₀ : TimerQueue) (now : ℤ)

/-- The entries that `getExpired` takes out of the set. -/
def due : List Entry := (s₀.pTimers.below (entry now UINTPTR_MAX)).elems

/-- The timers of some entries. -/
def objects (entries : List Entry) : List Timer := entries.filterMap fun e => s₀.heap e.address

/-- If the entry was that of a repeating timer, this is back in the set. -/
def Restarted (s : TimerQueue) (e : Entry) (clock : ℤ) : Prop :=
  ∀ timer, s₀.heap e.address = some timer → timer.isRepeat = true →
    entry (timer.restart clock).stamp e.address ∈ s.pTimers ∧
      s.heap e.address = some (timer.restart clock)

/-- `handleRead`, which began in `s₀`, has come to `s`, with the events `es` on the way. -/
structure Batch (es : List Event) (s : TimerQueue) : Prop where
  owned : Owned 0 s
  sequeue : s₀.sequeue ≤ s.sequeue
  busy : s.phase ≠ .idle
  firing : ∀ started expired, s.phase = .firing started expired →
    started ++ expired = s₀.due now ∧ s.log = s₀.log ++ (s₀.objects started).map .started ∧
      es.filterMap Event.resetAt = []
  restarting : ∀ expired, s.phase = .restarting expired →
    s.log = s₀.log ++ (s₀.objects (s₀.due now)).map .started ∧
      ∃ done, done ++ expired = s₀.due now ∧
        List.Forall₂ (s₀.Restarted s) done (es.filterMap Event.resetAt)
  waiting : ∀ e ∈ s.phase.batch, s.heap e.address = s₀.heap e.address
  notDue : ∀ e ∈ s₀.pTimers, now < e.stamp → e ∈ s.pTimers ∧ s.heap e.address = s₀.heap e.address
  added : ∀ address when interval clock, .addTimer address when interval clock ∈ es →
    ∃ q, s₀.sequeue < q ∧ entry when address ∈ s.pTimers ∧
      s.heap address = some ⟨when, interval, q⟩

end Batch

section Frame

variable {s t : TimerQueue} {ev : Event}

/-- What a step may do to the object at an address. -/
lemma heap_step (hstep : step s ev = some t) (address : ℕ) :
    t.heap address = s.heap address ∨
    (s.heap address = none ∧ address < UINTPTR_MAX) ∨
    (∃ next expired, s.phase = .restarting (next :: expired) ∧ next.address = address ∧
      ∃ now, ev = .resetOne now) ∨
    (s.cancelling ev ≠ none ∧ t.heap address = none) := by
  have hwrite : ∀ {a object}, t.heap = (s.write a object).heap → address ≠ a →
      t.heap address = s.heap address := by
    intro a object heap hne
    rw [heap]
    exact heap_write_of_ne hne _
  cases object_step hstep with
  | same heap issued sequeue => exact Or.inl (by rw [heap])
  | new a timer bound free fresh heap issued sequeue =>
    by_cases ha : address = a
    · exact Or.inr (Or.inl (ha ▸ ⟨free, bound⟩))
    · exact Or.inl (hwrite heap ha)
  | cancel timerId cancels heap issued sequeue =>
    by_cases ha : address = timerId.timer
    · refine Or.inr (Or.inr (Or.inr ⟨by simp [cancels], ?_⟩))
      rw [heap, ha]
      exact heap_write_self ..
    · exact Or.inl (hwrite heap ha)
  | reset next expired timer now event phase object heap issued sequeue =>
    by_cases ha : next.address = address
    · exact Or.inr (Or.inr (Or.inl ⟨next, expired, phase, ha, now, event⟩))
    · exact Or.inl (hwrite heap (Ne.symm ha))

/-- In `handleRead`, an entry stays in the set with its timer. -/
lemma set_step (ho : Owned 0 s) (hbusy : s.phase ≠ .idle) (hno : s.Uncancelled ev)
    (hstep : step s ev = some t) {e : Entry} (he : e ∈ s.pTimers) :
    e ∈ t.pTimers ∧ t.heap e.address = s.heap e.address := by
  constructor
  · cases ev with
    | addTimer address when interval now =>
      obtain ⟨-, -, -, rfl⟩ := step_addTimer hstep
      obtain ⟨timerfd, heq⟩ :=
        (s.newTimer address ⟨when, interval, s.sequeue + 1⟩).addTimerInLoop_eq
          address ⟨when, interval, s.sequeue + 1⟩ now
      rw [heq]
      exact SortedSet.mem_insert.mpr (Or.inr he)
    | queueTimer address when interval =>
      obtain ⟨-, -, rfl⟩ := step_queueTimer hstep
      exact he
    | cancelTimer timerId garbage => cases hno
    | queueCancel timerId =>
      obtain ⟨-, rfl⟩ := step_queueCancel hstep
      exact he
    | runFunctor garbage now => exact absurd (step_runFunctor hstep).1 hbusy
    | expire =>
      obtain rfl := step_expire hstep
      exact he
    | handleRead now => exact absurd (step_handleRead hstep).1 hbusy
    | timeout =>
      obtain ⟨started, e', expired, timer, -, -, rfl⟩ := step_timeout hstep
      exact he
    | beginReset =>
      obtain ⟨started, -, rfl⟩ := step_beginReset hstep
      exact he
    | resetOne now =>
      obtain ⟨e', expired, timer, -, -, rfl⟩ := step_resetOne hstep
      unfold resetOne
      split
      · exact SortedSet.mem_insert.mpr (Or.inr he)
      · exact he
    | rearm now =>
      obtain ⟨-, ⟨-, rfl⟩ | ⟨e', timer, -, -, rfl⟩⟩ := step_rearm hstep
      · exact he
      · unfold rearm
        split <;> exact he
  · obtain ⟨timer, htimer⟩ := live_of_set ho he
    rcases heap_step hstep e.address with hsame | ⟨hnone, -⟩ |
      ⟨e', expired, hphase, haddress, -⟩ | ⟨hcancel, -⟩
    · exact hsame
    · rw [hnone] at htimer
      cases htimer
    · have hbatch : e' ∈ s.phase.batch := by simp [hphase, Phase.batch]
      exact absurd haddress.symm (set_ne_batch ho he hbatch)
    · exact absurd hno hcancel

/-- A timer of the batch stays as it is until `reset` comes to it. -/
lemma waiting_step (ho : Owned 0 s) (hno : s.Uncancelled ev)
    (hstep : step s ev = some t) {e : Entry} (he : e ∈ s.phase.batch) (he' : e ∈ t.phase.batch) :
    t.heap e.address = s.heap e.address := by
  obtain ⟨timer, htimer⟩ := live_of_batch ho he
  rcases heap_step hstep e.address with hsame | ⟨hnone, -⟩ |
    ⟨next, expired, hphase, haddress, now, rfl⟩ | ⟨hcancel, -⟩
  · exact hsame
  · rw [hnone] at htimer
    cases htimer
  · obtain ⟨next', expired', timer', hphase', -, rfl⟩ := step_resetOne hstep
    obtain ⟨rfl, rfl⟩ : next = next' ∧ expired = expired' := by simpa [hphase] using hphase'
    rw [phase_resetOne] at he'
    have hnodup := nodup_batch ho
    rw [hphase, Phase.batch, List.map_cons, List.nodup_cons, haddress] at hnodup
    exact absurd (List.mem_map_of_mem he') hnodup.1
  · exact absurd hno hcancel

end Frame

section BatchSteps

variable {s₀ s t : TimerQueue} {now : ℤ} {es : List Event}

/-- The greatest pointer makes the comparison of the pairs one of the stamps. -/
lemma lt_sentry_iff {e : Entry} (h : e.address < UINTPTR_MAX) :
    e < entry now UINTPTR_MAX ↔ e.stamp ≤ now := by
  rw [Prod.Lex.lt_iff]
  change e.stamp < now ∨ e.stamp = now ∧ e.address < UINTPTR_MAX ↔ _
  constructor
  · rintro (hlt | ⟨heq, -⟩)
    · exact hlt.le
    · exact heq.le
  · intro hle
    rcases hle.lt_or_eq with hlt | heq
    · exact Or.inl hlt
    · exact Or.inr ⟨heq, h⟩

lemma batch_start (ho : Owned 0 s₀) (hidle : s₀.phase = .idle) :
    Batch s₀ now [] (s₀.getExpired now) where
  owned := owned_of_holders ho rfl (by rw [holders_getExpired hidle]) fun _ he =>
    (SortedSet.mem_above.mp he).1
  sequeue := le_rfl
  busy := by simp [getExpired]
  firing := by
    intro started expired hphase
    obtain ⟨rfl, rfl⟩ : [] = started ∧ s₀.due now = expired := by
      simpa [getExpired, due] using hphase
    exact ⟨rfl, by simp [objects, getExpired], rfl⟩
  restarting := by simp [getExpired]
  waiting := fun _ _ => rfl
  notDue := by
    intro e he hlate
    refine ⟨SortedSet.mem_above.mpr ⟨he, ?_⟩, rfl⟩
    rw [not_lt, Prod.Lex.le_iff]
    exact Or.inl hlate
  added := by simp

lemma restarted_step (ho : Owned 0 s) (hbusy : s.phase ≠ .idle) {ev : Event}
    (hno : s.Uncancelled ev) (hstep : step s ev = some t) {e : Entry} {clock : ℤ}
    (h : s₀.Restarted s e clock) : s₀.Restarted t e clock := by
  intro timer htimer hrepeat
  obtain ⟨hmem, hheap⟩ := h timer htimer hrepeat
  obtain ⟨hmem', hheap'⟩ := set_step ho hbusy hno hstep hmem
  exact ⟨hmem', hheap'.trans hheap⟩

lemma restarted_resetOne {e : Entry} {timer : Timer} (htimer : s₀.heap e.address = some timer)
    (clock : ℤ) : s₀.Restarted (s.resetOne e.address timer clock) e clock := by
  intro timer' htimer' hrepeat
  obtain rfl := Option.some.inj (htimer.symm.trans htimer')
  rw [resetOne, if_pos hrepeat]
  exact ⟨SortedSet.mem_insert.mpr (Or.inl rfl), heap_write_self ..⟩

lemma added_step (h : Batch s₀ now es s) {ev : Event} (hno : s.Uncancelled ev)
    (hstep : step s ev = some t) {address : ℕ} {when : ℤ} {interval : ℚ} {clock : ℤ}
    (hmem : .addTimer address when interval clock ∈ es ++ [ev]) :
    ∃ q, s₀.sequeue < q ∧ entry when address ∈ t.pTimers ∧
      t.heap address = some ⟨when, interval, q⟩ := by
  rw [List.mem_append, List.mem_singleton] at hmem
  rcases hmem with hmem | rfl
  · obtain ⟨q, hq, hentry, hheap⟩ := h.added address when interval clock hmem
    obtain ⟨hentry', hheap'⟩ := set_step h.owned h.busy hno hstep hentry
    exact ⟨q, hq, hentry', hheap'.trans hheap⟩
  · obtain ⟨-, -, -, rfl⟩ := step_addTimer hstep
    obtain ⟨timerfd, heq⟩ := (s.newTimer address ⟨when, interval, s.sequeue + 1⟩).addTimerInLoop_eq
      address ⟨when, interval, s.sequeue + 1⟩ clock
    rw [heq]
    exact ⟨s.sequeue + 1, Nat.lt_succ_of_le h.sequeue, SortedSet.mem_insert.mpr (Or.inl rfl),
      heap_write_self ..⟩

/-- All but the place in `handleRead`, for a step that adds nothing to the batch. -/
lemma batch_of_phase (h : Batch s₀ now es s) {ev : Event} (hno : s.Uncancelled ev)
    (hstep : step s ev = some t) (hbusy : t.phase ≠ .idle)
    (hsub : ∀ e ∈ t.phase.batch, e ∈ s.phase.batch)
    (hfiring : ∀ started expired, t.phase = .firing started expired →
      started ++ expired = s₀.due now ∧ t.log = s₀.log ++ (s₀.objects started).map .started ∧
        (es ++ [ev]).filterMap Event.resetAt = [])
    (hrestarting : ∀ expired, t.phase = .restarting expired →
      t.log = s₀.log ++ (s₀.objects (s₀.due now)).map .started ∧
        ∃ done, done ++ expired = s₀.due now ∧
          List.Forall₂ (s₀.Restarted t) done ((es ++ [ev]).filterMap Event.resetAt)) :
    Batch s₀ now (es ++ [ev]) t where
  owned := owned_step h.owned hstep
  sequeue := h.sequeue.trans (heapStep_step hstep).sequeue
  busy := hbusy
  firing := hfiring
  restarting := hrestarting
  waiting := by
    intro e he
    exact (waiting_step h.owned hno hstep (hsub e he) he).trans (h.waiting e (hsub e he))
  notDue := by
    intro e he hlate
    obtain ⟨hmem, hheap⟩ := h.notDue e he hlate
    obtain ⟨hmem', hheap'⟩ := set_step h.owned h.busy hno hstep hmem
    exact ⟨hmem', hheap'.trans hheap⟩
  added := fun _ _ _ _ hmem => added_step h hno hstep hmem

lemma filterMap_concat {α β : Type*} (f : α → Option β) (l : List α) (a : α) :
    (l ++ [a]).filterMap f = l.filterMap f ++ (f a).toList := by
  rw [List.filterMap_append]
  cases ha : f a <;> simp [ha]

lemma batch_step (h : Batch s₀ now es s) {ev : Event} (hin : s.InBatch ev)
    (hstep : step s ev = some t) : Batch s₀ now (es ++ [ev]) t := by
  have hclocks := filterMap_concat Event.resetAt es ev
  have hkeep : ∀ {done clocks}, List.Forall₂ (s₀.Restarted s) done clocks →
      List.Forall₂ (s₀.Restarted t) done clocks := fun hdone =>
    hdone.imp fun _ _ hone => restarted_step h.owned h.busy hin.1 hstep hone
  cases phase_step hstep with
  | stay resetAt readAt phase log =>
    rw [resetAt, Option.toList_none, List.append_nil] at hclocks
    refine batch_of_phase h hin.1 hstep (phase ▸ h.busy) (by simp [phase]) ?_ ?_
    · rw [phase, log, hclocks]
      exact h.firing
    · intro expired hphase
      rw [log, hclocks]
      obtain ⟨hfired, done, hdone, hall⟩ := h.restarting expired (phase ▸ hphase)
      exact ⟨hfired, done, hdone, hkeep hall⟩
  | cancel timerId cancels live phase log =>
    rw [hin.1] at cancels
    cases cancels
  | read now event phase eq => exact absurd phase h.busy
  | fire started next expired timer event phase object eq =>
    obtain ⟨hdue, hfired, hnone⟩ := h.firing _ _ phase
    have hobject : s₀.heap next.address = some timer :=
      (h.waiting next (by simp [phase, Phase.batch])).symm.trans object
    subst event eq
    refine batch_of_phase h hin.1 hstep (by simp [call]) (by simp [call, phase, Phase.batch]) ?_
      (by simp [call])
    intro started' expired' heq
    obtain ⟨rfl, rfl⟩ : started ++ [next] = started' ∧ expired = expired' := by
      simpa [call] using heq
    refine ⟨by simpa using hdue, ?_, ?_⟩
    · simp [call, hfired, objects, hobject]
    · simp [Event.resetAt, hnone, hclocks]
  | turn started event phase eq =>
    obtain ⟨hdue, hfired, hnone⟩ := h.firing _ _ phase
    rw [List.append_nil] at hdue
    subst event eq
    refine batch_of_phase h hin.1 hstep (by simp) (by simp [phase, Phase.batch]) (by simp) ?_
    intro expired heq
    obtain rfl : started = expired := by simpa using heq
    refine ⟨by rw [hfired, hdue], [], hdue, ?_⟩
    rw [hclocks, hnone]
    exact List.Forall₂.nil
  | reset next expired timer clock event phase object eq =>
    obtain ⟨hfired, done, hdone, hall⟩ := h.restarting _ phase
    have hobject : s₀.heap next.address = some timer :=
      (h.waiting next (by simp [phase, Phase.batch])).symm.trans object
    subst event eq
    have hphase : ({ s with phase := .restarting expired }.resetOne next.address timer
        clock).phase = .restarting expired := phase_resetOne ..
    have hsub : ∀ e ∈ Phase.batch (.restarting expired), e ∈ s.phase.batch := by
      rw [phase]
      exact fun e he => List.mem_cons_of_mem next he
    refine batch_of_phase h hin.1 hstep (by simp [hphase]) (by rwa [hphase]) (by simp [hphase]) ?_
    intro expired' heq
    obtain rfl : expired = expired' := by simpa [hphase] using heq
    refine ⟨by rw [log_resetOne]; exact hfired, done ++ [next], by simpa using hdone, ?_⟩
    rw [hclocks]
    exact List.rel_append (hkeep hall)
      (List.Forall₂.cons (restarted_resetOne hobject clock) List.Forall₂.nil)
  | finish now event phase idle heap pTimers log => exact absurd event (hin.2 now)

end BatchSteps

section Completion

variable {s : TimerQueue}

/-- Inside `handleRead` the loop always has a next step, which brings it closer to the end. -/
lemma exists_next (ho : Owned 0 s) (hbusy : s.phase ≠ .idle) (hnot : s.phase ≠ .restarting []) :
    ∃ ev t, s.InBatch ev ∧ step s ev = some t ∧ t.phase ≠ .idle ∧ t.todo < s.todo := by
  cases hphase : s.phase with
  | idle => exact absurd hphase hbusy
  | firing started expired =>
    cases expired with
    | nil =>
      refine ⟨.beginReset, { s with phase := .restarting started }, ⟨rfl, by simp⟩,
        by simp [step, hphase], by simp, ?_⟩
      simp [todo, hphase]
    | cons e expired =>
      obtain ⟨timer, htimer⟩ := live_of_batch ho (e := e) (by simp [hphase, Phase.batch])
      refine ⟨.timeout, { s with phase := .firing (started ++ [e]) expired }.call (.started timer),
        ⟨rfl, by simp⟩, by simp [step, hphase, htimer], by simp [call], ?_⟩
      simp [todo, hphase, call]
      omega
  | restarting expired =>
    cases expired with
    | nil => exact absurd hphase hnot
    | cons e expired =>
      obtain ⟨timer, htimer⟩ := live_of_batch ho (e := e) (by simp [hphase, Phase.batch])
      refine ⟨.resetOne 0, { s with phase := .restarting expired }.resetOne e.address timer 0,
        ⟨rfl, by simp⟩, by simp [step, hphase, htimer], by simp [phase_resetOne], ?_⟩
      unfold resetOne
      split
      · simp [todo, insert, hphase, write]
      · simp [todo, hphase, delete, write]

/-- `handleRead` comes to its end when its callbacks return. -/
lemma exists_rearm (ho : Owned 0 s) (hbusy : s.phase ≠ .idle) : ∃ rest t,
    Guarded step InBatch s rest ∧ run step s (rest ++ [.rearm 0]) = some t := by
  induction hn : s.todo using Nat.strong_induction_on generalizing s with
  | _ n ih =>
    by_cases hend : s.phase = .restarting []
    · have hrearm : ∃ t, step s (.rearm 0) = some t := by
        simp only [step, hend]
        cases hfirst : s.pTimers.first with
        | none => exact ⟨_, rfl⟩
        | some e =>
          obtain ⟨timer, htimer⟩ := live_of_set ho (SortedSet.first_mem hfirst)
          exact ⟨_, Option.map_eq_some_iff.mpr ⟨timer, htimer, rfl⟩⟩
      obtain ⟨t, hstep⟩ := hrearm
      exact ⟨[], t, trivial, run_cons_iff.mpr ⟨t, hstep, rfl⟩⟩
    · obtain ⟨ev, u, hin, hstep, hbusy', hlt⟩ := exists_next ho hbusy hend
      obtain ⟨rest, t, hguard, hrun⟩ := ih u.todo (hn ▸ hlt) (owned_step ho hstep) hbusy' rfl
      refine ⟨ev :: rest, t, ?_, run_cons_iff.mpr ⟨u, hstep, hrun⟩⟩
      intro u' hstep'
      obtain rfl := Option.some.inj (hstep.symm.trans hstep')
      exact ⟨hin, hguard⟩

end Completion

end RpcMuduo.TimerQueue
