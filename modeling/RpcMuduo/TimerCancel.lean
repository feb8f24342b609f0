import RpcMuduo.TimerOwnership

/-!
# Cancelling a timer

`cancelInLoop` looks for the timer in the set only. A timer that has left it for the batch of
expired timers is not found, and neither its callback nor `reset` asks whether it was cancelled.
-/
namespace RpcMuduo.TimerQueue
open Run

/-- If the timer of the id lives, it is in the set, or it is one-shot and its callback has been
started. -/
def InTime (s : TimerQueue) (timerId : TimerId) : Prop :=
  ∀ timer, s.heap timerId.timer = some timer → timer.sequence = timerId.sequence →
    entry timer.stamp timerId.timer ∈ s.pTimers ∨
      (timer.isRepeat = false ∧ timerId.timer ∈ s.phase.fired)

def CancelsInTime (s : TimerQueue) (e : Event) : Prop :=
  ∀ timerId, s.cancelling e = some timerId → s.InTime timerId

/-- No callback is started after the cancellation of its timer. -/
def NotCancelled (log : List Called) : Called → Prop
  | .started timer => .cancelled timer.sequence ∉ log
  | .cancelled _ => True

/-- A cancelled timer is not started again, and it is not in the set. -/
structure StaysCancelled (s : TimerQueue) : Prop where
  order : Ordered NotCancelled s.log
  out : ∀ q, .cancelled q ∈ s.log → ∀ e ∈ s.pTimers, ∀ timer, s.heap e.address = some timer →
    timer.sequence ≠ q

structure CancelInv (s : TimerQueue) : Prop where
  owned : Owned 0 s
  named : Named s
  order : Ordered NotCancelled s.log
  spent : ∀ q, .cancelled q ∈ s.log → Spent s q

section CancelInLoop

variable {s t : TimerQueue}

lemma getStamp_live {address : ℕ} {timer : Timer} (h : s.heap address = some timer)
    (garbage : ℤ) : s.getStamp address garbage = timer.stamp := by
  rw [getStamp, h]
  rfl

/-- What one step adds to the history. -/
lemma log_step {e : Event} (hstep : step s e = some t) :
    (∃ started e expired timer, s.phase = .firing started (e :: expired) ∧
      s.heap e.address = some timer ∧
      t = { s with phase := .firing (started ++ [e]) expired }.call (.started timer)) ∨
    (∃ timerId, s.cancelling e = some timerId ∧ s.Live timerId ∧
      t.log = s.log ++ [.cancelled timerId.sequence]) ∨ t.log = s.log := by
  cases phase_step hstep with
  | stay resetAt readAt phase log => exact Or.inr (Or.inr log)
  | cancel timerId cancels live phase log => exact Or.inr (Or.inl ⟨timerId, cancels, live, log⟩)
  | read now event phase eq => exact Or.inr (Or.inr (by rw [eq, getExpired]))
  | fire started next expired timer event phase object eq =>
    exact Or.inl ⟨started, next, expired, timer, phase, object, eq⟩
  | turn started event phase eq => exact Or.inr (Or.inr (by rw [eq]))
  | reset next expired timer now event phase object eq =>
    exact Or.inr (Or.inr (by rw [eq, log_resetOne]))
  | finish now event phase idle heap pTimers log => exact Or.inr (Or.inr log)

/-- A cancellation in time leaves the timer of its id spent. -/
lemma spent_cancelling (hn : Named s) {e : Event} {timerId : TimerId}
    (h : s.cancelling e = some timerId) (hlive : s.Live timerId) (hin : s.InTime timerId)
    (hstep : step s e = some t) : Spent t timerId.sequence := by
  obtain ⟨timer, htimer, hsequence⟩ := hlive
  have hheap := heapStep_step hstep
  have hfresh := hn.fresh timerId.timer timer htimer
  have hsequeue := hheap.sequeue
  obtain ⟨functors, garbage, rfl⟩ := step_cancelling h hstep
  refine ⟨by omega, ?_⟩
  intro address timer' htimer' hq
  rw [heap_cancelInLoop, phase_cancelInLoop,
    getStamp_live (s := { s with pendingFunctors := functors }) htimer] at *
  have hsame : ∀ b timer', s.heap b = some timer' → timer'.sequence = timerId.sequence →
      b = timerId.timer := by
    intro b timer' hb hseq
    exact hn.distinct b timerId.timer timer' timer hb htimer (by omega)
  by_cases hmem : entry timer.stamp timerId.timer ∈ s.pTimers
  · rw [if_pos hmem] at htimer'
    by_cases haddress : address = timerId.timer
    · subst haddress
      rw [heap_write_self] at htimer'
      cases htimer'
    · rw [heap_write_of_ne haddress] at htimer'
      exact absurd (hsame address timer' htimer' hq) haddress
  · rw [if_neg hmem] at htimer'
    obtain rfl := hsame address timer' htimer' hq
    obtain rfl := Option.some.inj (htimer.symm.trans htimer')
    exact (hin timer htimer hsequence).resolve_left hmem

end CancelInLoop

section InTime

variable {s t : TimerQueue}

lemma cancelInv_initial : CancelInv initial where
  owned := owned_initial
  named := named_initial
  order := ordered_nil _
  spent := by simp [initial]

lemma cancelInv_step (h : CancelInv s) {e : Event} (hguard : s.CancelsInTime e)
    (hstep : step s e = some t) : CancelInv t where
  owned := owned_step h.owned hstep
  named := named_heapStep h.named (heapStep_step hstep)
  order := by
    rcases log_step hstep with ⟨started, e, expired, timer, hphase, htimer, rfl⟩ |
      ⟨timerId, -, -, hlog⟩ | hlog
    · refine ordered_concat.mpr ⟨h.order, ?_⟩
      intro hmem
      exact spent_not_next h.owned (h.spent timer.sequence hmem) hphase htimer rfl
    · rw [hlog]
      exact ordered_concat.mpr ⟨h.order, trivial⟩
    · rw [hlog]
      exact h.order
  spent := by
    intro q hq
    rcases log_step hstep with ⟨started, e, expired, timer, -, -, rfl⟩ |
      ⟨timerId, hcancel, hlive, hlog⟩ | hlog
    · rcases List.mem_append.mp hq with hq | hq
      · exact spent_step (h.spent q hq) hstep
      · cases List.mem_singleton.mp hq
    · rw [hlog, List.mem_append, List.mem_singleton] at hq
      rcases hq with hq | hq
      · exact spent_step (h.spent q hq) hstep
      · cases hq
        exact spent_cancelling h.named hcancel hlive (hguard timerId hcancel) hstep
    · rw [hlog] at hq
      exact spent_step (h.spent q hq) hstep

lemma staysCancelled_of_inv (h : CancelInv s) : StaysCancelled s where
  order := h.order
  out := by
    intro q hq e he timer htimer
    exact spent_not_mem_set h.owned (h.spent q hq) he htimer

end InTime

/-- A cancelled timer lives on outside the set, and the loop is yet to start it or to put it
back. -/
def Doomed (s : TimerQueue) (q : ℕ) : Prop :=
  .cancelled q ∈ s.log ∧ ∃ address timer, s.heap address = some timer ∧ timer.sequence = q ∧
    (∀ e ∈ s.pTimers, e.address ≠ address) ∧
      (timer.isRepeat = true ∨ address ∉ s.phase.fired)

/-- The steps until the loop has left `handleRead` and run what is queued. -/
def todo (s : TimerQueue) : ℕ :=
  s.pendingFunctors.length +
    match s.phase with
    | .idle => 0
    | .firing started expired => started.length + 2 * expired.length + 2
    | .restarting expired => expired.length + 1

section Doomed

variable {s t : TimerQueue} {q : ℕ}

lemma live_of_holder (h : Owned 0 s) (address : ℕ) (hmem : address ∈ s.holders) :
    ∃ timer, s.heap address = some timer :=
  Option.ne_none_iff_exists'.mp ((h.live address).mp (by simpa using hmem))

lemma live_of_batch (h : Owned 0 s) {e : Entry} (he : e ∈ s.phase.batch) :
    ∃ timer, s.heap e.address = some timer :=
  live_of_holder h e.address (mem_holders.mpr (Or.inr (Or.inr ⟨e, he, rfl⟩)))

lemma live_of_set (h : Owned 0 s) {e : Entry} (he : e ∈ s.pTimers) :
    ∃ timer, s.heap e.address = some timer :=
  live_of_holder h e.address (mem_holders.mpr (Or.inr (Or.inl ⟨e, he, rfl⟩)))

lemma not_stays_of_mem {address : ℕ} (timer : Timer)
    (hcancelled : .cancelled timer.sequence ∈ s.log) (htimer : s.heap address = some timer)
    {e : Entry} (he : e ∈ s.pTimers) (haddress : e.address = address) : ¬ StaysCancelled s := by
  intro hstays
  exact hstays.out timer.sequence hcancelled e he timer (haddress ▸ htimer) rfl

/-- The timer is not in the set, so a second cancellation does not find it either. -/
lemma doomed_cancelInLoop (hdoomed : Doomed s q) (timerId : TimerId) (garbage : ℤ) :
    Doomed (s.cancelInLoop timerId garbage) q := by
  obtain ⟨hcancelled, address, timer, htimer, rfl, hset, hready⟩ := hdoomed
  refine ⟨?_, address, timer, ?_, rfl, ?_, ?_⟩
  · rw [log_cancelInLoop]
    split
    · exact List.mem_append_left _ hcancelled
    · exact hcancelled
  · rw [heap_cancelInLoop]
    split
    · rename_i hmem
      have hne : address ≠ timerId.timer := fun heq => hset _ hmem heq.symm
      rw [heap_write_of_ne hne]
      exact htimer
    · exact htimer
  · intro e he
    rw [pTimers_cancelInLoop] at he
    split at he
    · exact hset e (SortedSet.mem_erase.mp he).2
    · exact hset e he
  · rw [phase_cancelInLoop]
    exact hready

/-- An addition puts this timer into the set, or another one. -/
lemma doomed_addTimerInLoop (hdoomed : Doomed s q) {a : ℕ} {added : Timer}
    (hadded : s.heap a = some added) (now : ℤ) :
    ¬ StaysCancelled (s.addTimerInLoop a added now) ∨ Doomed (s.addTimerInLoop a added now) q := by
  obtain ⟨hcancelled, address, timer, htimer, rfl, hset, hready⟩ := hdoomed
  obtain ⟨timerfd, heq⟩ := s.addTimerInLoop_eq a added now
  rw [heq]
  by_cases ha : a = address
  · subst ha
    obtain rfl := Option.some.inj (htimer.symm.trans hadded)
    left
    exact not_stays_of_mem timer hcancelled htimer (SortedSet.mem_insert.mpr (Or.inl rfl)) rfl
  · refine Or.inr ⟨hcancelled, address, timer, htimer, rfl, ?_, hready⟩
    intro e he
    rcases SortedSet.mem_insert.mp he with rfl | he
    · exact ha
    · exact hset e he

/-- In `doPendingFunctors` the addition of the timer is still in the queue. -/
lemma doomed_idle (h : Owned 0 s) (hdoomed : Doomed s q) (hphase : s.phase = .idle) :
    ∃ e t, step s e = some t ∧ (¬ StaysCancelled t ∨ (Doomed t q ∧ t.todo < s.todo)) := by
  obtain ⟨-, address, timer, htimer, -, hset, -⟩ := id hdoomed
  have hqueued : .addTimerInLoop address ∈ s.pendingFunctors := by
    have hmem := (h.live address).mpr (by simp [htimer])
    rw [add_zero, mem_holders] at hmem
    rcases hmem with hmem | ⟨e, he, haddress⟩ | ⟨e, he, -⟩
    · exact hmem
    · exact absurd haddress (hset e he)
    · rw [hphase] at he
      cases he
  cases hfunctors : s.pendingFunctors with
  | nil =>
    rw [hfunctors] at hqueued
    cases hqueued
  | cons functor functors =>
    have hlt : functors.length < s.todo := by simp [todo, hphase, hfunctors]
    have hrest : Doomed { s with pendingFunctors := functors } q := hdoomed
    cases functor with
    | addTimerInLoop a =>
      obtain ⟨added, hadded⟩ := live_of_holder h a
        (mem_holders.mpr (Or.inl (by simp [hfunctors])))
      refine ⟨.runFunctor 0 0, { s with pendingFunctors := functors }.addTimerInLoop a added 0,
        by simp [step, hphase, hfunctors, hadded], ?_⟩
      refine (doomed_addTimerInLoop hrest hadded 0).imp_right fun hnext => ⟨hnext, ?_⟩
      obtain ⟨timerfd, heq⟩ := { s with pendingFunctors := functors }.addTimerInLoop_eq a added 0
      rw [heq]
      simpa [todo, insert, hphase] using hlt
    | cancelInLoop timerId =>
      refine ⟨.runFunctor 0 0, { s with pendingFunctors := functors }.cancelInLoop timerId 0,
        by simp [step, hphase, hfunctors], ?_⟩
      refine Or.inr ⟨doomed_cancelInLoop hrest timerId 0, ?_⟩
      simpa [todo, phase_cancelInLoop, pendingFunctors_cancelInLoop, hphase] using hlt

/-- In the loop over the expired timers it may be the next to be started. -/
lemma doomed_firing (h : Owned 0 s) (hdoomed : Doomed s q) {started expired : List Entry}
    (hphase : s.phase = .firing started expired) :
    ∃ e t, step s e = some t ∧ (¬ StaysCancelled t ∨ (Doomed t q ∧ t.todo < s.todo)) := by
  obtain ⟨hcancelled, address, timer, htimer, rfl, hset, hready⟩ := hdoomed
  rw [hphase] at hready
  cases expired with
  | nil =>
    refine ⟨.beginReset, { s with phase := .restarting started }, by simp [step, hphase], ?_⟩
    refine Or.inr ⟨⟨hcancelled, address, timer, htimer, rfl, hset, hready⟩, ?_⟩
    simp [todo, hphase]
  | cons e expired =>
    obtain ⟨timer', htimer'⟩ := live_of_batch h (e := e) (by simp [hphase, Phase.batch])
    refine ⟨.timeout, { s with phase := .firing (started ++ [e]) expired }.call (.started timer'),
      by simp [step, hphase, htimer'], ?_⟩
    by_cases haddress : e.address = address
    · subst haddress
      obtain rfl := Option.some.inj (htimer.symm.trans htimer')
      left
      intro hstays
      exact (ordered_concat.mp hstays.order).2 hcancelled
    · refine Or.inr ⟨⟨List.mem_append_left _ hcancelled, address, timer, htimer, rfl, hset, ?_⟩, ?_⟩
      · simpa [Phase.fired, call, Ne.symm haddress] using hready
      · simp only [todo, call, hphase, List.length_append, List.length_nil, List.length_cons]
        omega

/-- `reset` puts this timer back into the set, or it restarts or deletes another one. -/
lemma doomed_resetOne (hdoomed : Doomed s q) {e : Entry} {expired : List Entry}
    (hphase : s.phase = .restarting (e :: expired)) {restarted : Timer}
    (hrestarted : s.heap e.address = some restarted) (now : ℤ) :
    ¬ StaysCancelled ({ s with phase := .restarting expired }.resetOne e.address restarted now) ∨
      Doomed ({ s with phase := .restarting expired }.resetOne e.address restarted now) q := by
  obtain ⟨hcancelled, address, timer, htimer, rfl, hset, hready⟩ := hdoomed
  rw [hphase] at hready
  by_cases haddress : e.address = address
  · subst haddress
    obtain rfl := Option.some.inj (htimer.symm.trans hrestarted)
    have hrepeat : timer.isRepeat = true := hready.resolve_right (by simp [Phase.fired])
    left
    rw [resetOne, if_pos hrepeat]
    exact not_stays_of_mem (timer.restart now) hcancelled (heap_write_self ..)
      (SortedSet.mem_insert.mpr (Or.inl rfl)) rfl
  · have hready' : timer.isRepeat = true ∨ address ∉ expired.map Entry.address := by
      simpa [Phase.fired, Ne.symm haddress] using hready
    right
    unfold resetOne
    split
    · refine ⟨hcancelled, address, timer, ?_, rfl, ?_, hready'⟩
      · exact (heap_write_of_ne (Ne.symm haddress) _).trans htimer
      · intro e' he'
        rcases SortedSet.mem_insert.mp he' with rfl | he'
        · exact haddress
        · exact hset e' he'
    · refine ⟨hcancelled, address, timer, ?_, rfl, hset, hready'⟩
      exact (heap_write_of_ne (Ne.symm haddress) _).trans htimer

/-- In `reset` it may be the next to be put back. -/
lemma doomed_restarting (h : Owned 0 s) (hdoomed : Doomed s q) {expired : List Entry}
    (hphase : s.phase = .restarting expired) :
    ∃ e t, step s e = some t ∧ (¬ StaysCancelled t ∨ (Doomed t q ∧ t.todo < s.todo)) := by
  cases expired with
  | nil =>
    obtain ⟨hcancelled, address, timer, htimer, rfl, hset, -⟩ := hdoomed
    have hfired : address ∉ Phase.idle.fired := List.not_mem_nil
    have hlt : s.pendingFunctors.length < s.todo := by simp [todo, hphase]
    cases hfirst : s.pTimers.first with
    | none =>
      refine ⟨.rearm 0, { s with phase := .idle }, by simp [step, hphase, hfirst], ?_⟩
      exact Or.inr ⟨⟨hcancelled, address, timer, htimer, rfl, hset, Or.inr hfired⟩, hlt⟩
    | some e =>
      obtain ⟨timer', htimer'⟩ := live_of_set h (SortedSet.first_mem hfirst)
      refine ⟨.rearm 0, { s with phase := .idle }.rearm timer'.stamp 0,
        by simp [step, hphase, hfirst, htimer'], ?_⟩
      right
      unfold rearm
      split
      · exact ⟨⟨hcancelled, address, timer, htimer, rfl, hset, Or.inr hfired⟩, hlt⟩
      · exact ⟨⟨hcancelled, address, timer, htimer, rfl, hset, Or.inr hfired⟩, hlt⟩
  | cons e expired =>
    obtain ⟨restarted, hrestarted⟩ := live_of_batch h (e := e) (by simp [hphase, Phase.batch])
    refine ⟨.resetOne 0, { s with phase := .restarting expired }.resetOne e.address restarted 0,
      by simp [step, hphase, hrestarted], ?_⟩
    refine (doomed_resetOne hdoomed hphase hrestarted 0).imp_right fun hnext => ⟨hnext, ?_⟩
    unfold resetOne
    split
    · simp [todo, insert, hphase, write]
    · simp [todo, hphase, delete, write]

/-- Whatever the loop does first, in the end it starts the timer or puts it back. -/
lemma doomed_run (h : Owned 0 s) (hdoomed : Doomed s q) :
    ∃ es, ¬ Always step StaysCancelled s es := by
  induction hn : s.todo using Nat.strong_induction_on generalizing s with
  | _ n ih =>
    have hnext : ∃ e t, step s e = some t ∧
        (¬ StaysCancelled t ∨ (Doomed t q ∧ t.todo < s.todo)) := by
      cases hphase : s.phase with
      | idle => exact doomed_idle h hdoomed hphase
      | firing started expired => exact doomed_firing h hdoomed hphase
      | restarting expired => exact doomed_restarting h hdoomed hphase
    obtain ⟨e, t, hstep, hnot | ⟨hdoomed', hlt⟩⟩ := hnext
    · exact ⟨[e], fun halways => hnot (halways.2 t hstep)⟩
    · obtain ⟨es, hes⟩ := ih t.todo (hn ▸ hlt) (owned_step h hstep) hdoomed' rfl
      exact ⟨e :: es, fun halways => hes (halways.2 t hstep)⟩

/-- A cancellation that is not in time is forgotten. -/
lemma doomed_of_not_inTime (h : Owned 0 s) {e : Event} (hguard : ¬ s.CancelsInTime e)
    (hstep : step s e = some t) : ∃ q, Doomed t q := by
  simp only [CancelsInTime, InTime, not_forall] at hguard
  obtain ⟨timerId, hcancel, timer, htimer, hsequence, hlate⟩ := hguard
  rw [not_or] at hlate
  obtain ⟨functors, garbage, rfl⟩ := step_cancelling hcancel hstep
  have hstamp : getStamp { s with pendingFunctors := functors } timerId.timer garbage =
      timer.stamp := getStamp_live (s := { s with pendingFunctors := functors }) htimer garbage
  refine ⟨timer.sequence, ?_, timerId.timer, timer, ?_, rfl, ?_, ?_⟩
  · rw [log_cancelInLoop, if_pos ⟨timer, htimer, hsequence⟩, hsequence]
    exact List.mem_append_right _ List.mem_cons_self
  · rw [heap_cancelInLoop, hstamp, if_neg hlate.1]
    exact htimer
  · intro e' he' haddress
    rw [pTimers_cancelInLoop, hstamp, if_neg hlate.1] at he'
    have hkey := h.key e' he' timer (haddress ▸ htimer)
    exact hlate.1 (by rwa [hkey, ← haddress])
  · rw [phase_cancelInLoop]
    by_cases hrepeat : timer.isRepeat = true
    · exact Or.inl hrepeat
    · exact Or.inr fun hfired => hlate.2 ⟨by simpa using hrepeat, hfired⟩

end Doomed

/-- A timer that cancels itself in its callback. -/
def selfCancel : List Event :=
  [.addTimer 16 100 1 50, .expire, .handleRead 100, .timeout, .cancelTimer ⟨16, 1⟩ 0, .beginReset,
    .resetOne 200]

lemma selfCancel_isSome : (run step initial selfCancel).isSome = true := by decide +kernel

lemma selfCancel_run : ∃ s, run step initial selfCancel = some s ∧ .cancelled 1 ∈ s.log ∧
    entry 1000200 16 ∈ s.pTimers ∧ s.heap 16 = some ⟨1000200, 1, 1⟩ := by
  refine ⟨_, (Option.some_get selfCancel_isSome).symm, ?_⟩
  decide +kernel

/-- In the runs whose cancellations all come in time, a cancelled timer stays cancelled; and after
any such run, a cancellation that does not come in time has a continuation in which the timer is
started again or put back into the set. -/
theorem cancelled_stays_cancelled_iff (es : List Event) :
    (Guarded step CancelsInTime initial es → Always step StaysCancelled initial es) ∧
    ∀ s e t, Guarded step CancelsInTime initial es → run step initial es = some s →
      step s e = some t → ¬ s.CancelsInTime e → ∃ fs, ¬ Always step StaysCancelled t fs := by
  constructor
  · intro h
    exact always_of_guarded (P := CancelInv) (fun _ hs => staysCancelled_of_inv hs)
      (fun _ _ _ hs hguard hstep => cancelInv_step hs hguard hstep) cancelInv_initial h
  · intro s e t _ hrun hstep hguard
    have howned : Owned 0 s :=
      run_invariant (fun _ _ _ hs hstep => owned_step hs hstep) owned_initial hrun
    obtain ⟨q, hdoomed⟩ := doomed_of_not_inTime howned hguard hstep
    exact doomed_run (owned_step howned hstep) hdoomed

theorem cancelled_timer_restarted : ¬ Always step StaysCancelled initial selfCancel := by
  intro h
  obtain ⟨s, hrun, hcancelled, hmem, hheap⟩ := selfCancel_run
  exact not_stays_of_mem ⟨1000200, 1, 1⟩ hcancelled hheap hmem rfl (always_run h hrun)

end RpcMuduo.TimerQueue
