import RpcMuduo.TimerQueue

/-!
# What a step of the timer queue does

Said once for the `Timer` objects with their ids, and once for the place in `handleRead` with the
history.
-/
namespace RpcMuduo.TimerQueue

/-- The id for which the event runs `cancelInLoop`. -/
def cancelling (s : TimerQueue) : Event → Option TimerId
  | .cancelTimer timerId _ => some timerId
  | .runFunctor _ _ =>
    match s.pendingFunctors with
    | .cancelInLoop timerId :: _ => some timerId
    | _ => none
  | _ => none

/-- The clock when `reset` comes to a timer. -/
def Event.resetAt : Event → Option ℤ
  | .resetOne now => some now
  | _ => none

/-- The clock at the start of `handleRead`. -/
def Event.readAt : Event → Option ℤ
  | .handleRead now => some now
  | _ => none

section Operations

variable {s t : TimerQueue}

lemma addTimerInLoop_eq (address : ℕ) (timer : Timer) (now : ℤ) : ∃ timerfd,
    s.addTimerInLoop address timer now = { s.insert address timer with timerfd := timerfd } := by
  unfold addTimerInLoop
  split
  · exact ⟨_, rfl⟩
  · exact ⟨_, rfl⟩

lemma phase_addTimerInLoop (address : ℕ) (timer : Timer) (now : ℤ) :
    (s.addTimerInLoop address timer now).phase = s.phase := by
  obtain ⟨timerfd, heq⟩ := s.addTimerInLoop_eq address timer now
  rw [heq]
  rfl

lemma log_addTimerInLoop (address : ℕ) (timer : Timer) (now : ℤ) :
    (s.addTimerInLoop address timer now).log = s.log := by
  obtain ⟨timerfd, heq⟩ := s.addTimerInLoop_eq address timer now
  rw [heq]
  rfl

lemma recordCancel_eq (timerId : TimerId) : ∃ log,
    s.recordCancel timerId = { s with log := log } := by
  unfold recordCancel
  split
  · exact ⟨_, rfl⟩
  · exact ⟨_, rfl⟩

lemma log_cancelInLoop (timerId : TimerId) (garbage : ℤ) :
    (s.cancelInLoop timerId garbage).log =
      if s.Live timerId then s.log ++ [.cancelled timerId.sequence] else s.log := by
  unfold cancelInLoop eraseEntry recordCancel
  split <;> split <;> rfl

/-- The exact effect of `cancelInLoop` on the set. -/
lemma pTimers_cancelInLoop (timerId : TimerId) (garbage : ℤ) :
    (s.cancelInLoop timerId garbage).pTimers =
      if entry (s.getStamp timerId.timer garbage) timerId.timer ∈ s.pTimers
      then s.pTimers.erase (entry (s.getStamp timerId.timer garbage) timerId.timer)
      else s.pTimers := by
  obtain ⟨log, hlog⟩ := s.recordCancel_eq timerId
  unfold cancelInLoop eraseEntry
  rw [hlog]
  split <;> rfl

/-- The address of the id is the only one that `cancelInLoop` touches, and only on a hit. -/
lemma heap_cancelInLoop (timerId : TimerId) (garbage : ℤ) :
    (s.cancelInLoop timerId garbage).heap =
      if entry (s.getStamp timerId.timer garbage) timerId.timer ∈ s.pTimers
      then (s.write timerId.timer none).heap else s.heap := by
  obtain ⟨log, hlog⟩ := s.recordCancel_eq timerId
  unfold cancelInLoop eraseEntry
  rw [hlog]
  split <;> rfl

lemma phase_cancelInLoop (timerId : TimerId) (garbage : ℤ) :
    (s.cancelInLoop timerId garbage).phase = s.phase := by
  obtain ⟨log, hlog⟩ := s.recordCancel_eq timerId
  unfold cancelInLoop eraseEntry
  rw [hlog]
  split <;> rfl

lemma pendingFunctors_cancelInLoop (timerId : TimerId) (garbage : ℤ) :
    (s.cancelInLoop timerId garbage).pendingFunctors = s.pendingFunctors := by
  obtain ⟨log, hlog⟩ := s.recordCancel_eq timerId
  unfold cancelInLoop eraseEntry
  rw [hlog]
  split <;> rfl

/-- A step that runs `cancelInLoop` does nothing else but take it from the queue. -/
lemma step_cancelling {e : Event} {timerId : TimerId} (h : s.cancelling e = some timerId)
    (hstep : step s e = some t) : ∃ functors garbage,
      t = { s with pendingFunctors := functors }.cancelInLoop timerId garbage := by
  cases e with
  | cancelTimer timerId' garbage =>
    obtain ⟨-, -, rfl⟩ := step_cancelTimer hstep
    obtain rfl := Option.some.inj h
    exact ⟨s.pendingFunctors, garbage, rfl⟩
  | runFunctor garbage now =>
    obtain ⟨-, ⟨address, functors, timer, hfunctors, -, -⟩ |
      ⟨timerId', functors, hfunctors, rfl⟩⟩ := step_runFunctor hstep
    · simp only [cancelling, hfunctors] at h
      cases h
    · simp only [cancelling, hfunctors, Option.some.injEq] at h
      subst h
      exact ⟨functors, garbage, rfl⟩
  | _ => cases h

lemma phase_resetOne (address : ℕ) (timer : Timer) (clock : ℤ) :
    (s.resetOne address timer clock).phase = s.phase := by
  unfold resetOne
  split <;> rfl

lemma log_resetOne (address : ℕ) (timer : Timer) (clock : ℤ) :
    (s.resetOne address timer clock).log = s.log := by
  unfold resetOne
  split <;> rfl

/-- The end of `reset` touches neither the set nor the timers. -/
lemma rearm_eq {clock : ℤ} (hstep : step s (.rearm clock) = some t) :
    s.phase = .restarting [] ∧ t.phase = .idle ∧ t.heap = s.heap ∧ t.pTimers = s.pTimers ∧
      t.log = s.log := by
  obtain ⟨hphase, ⟨-, rfl⟩ | ⟨e, timer, -, -, rfl⟩⟩ := step_rearm hstep
  · exact ⟨hphase, rfl, rfl, rfl, rfl⟩
  · unfold rearm
    split <;> exact ⟨hphase, rfl, rfl, rfl, rfl⟩

end Operations

/-- What a step does to the `Timer` objects, to the ids that were issued and to the sequence
number. -/
inductive ObjectStep (s : TimerQueue) (e : Event) (t : TimerQueue) : Prop
  | same (heap : t.heap = s.heap) (issued : t.issued = s.issued) (sequeue : t.sequeue = s.sequeue)
  | new (address : ℕ) (timer : Timer) (bound : address < UINTPTR_MAX)
      (free : s.heap address = none) (fresh : timer.sequence = s.sequeue + 1)
      (heap : t.heap = (s.write address (some timer)).heap)
      (issued : t.issued = s.issued ++ [⟨address, timer.sequence⟩])
      (sequeue : t.sequeue = timer.sequence)
  | cancel (timerId : TimerId) (cancels : s.cancelling e = some timerId)
      (heap : t.heap = (s.write timerId.timer none).heap) (issued : t.issued = s.issued)
      (sequeue : t.sequeue = s.sequeue)
  | reset (next : Entry) (expired : List Entry) (timer : Timer) (now : ℤ)
      (event : e = .resetOne now) (phase : s.phase = .restarting (next :: expired))
      (object : s.heap next.address = some timer)
      (heap : t.heap = (s.write next.address
        (if timer.isRepeat then some (timer.restart now) else none)).heap)
      (issued : t.issued = s.issued) (sequeue : t.sequeue = s.sequeue)

/-- What a step does to the place in `handleRead` and to the history. -/
inductive PhaseStep (s : TimerQueue) (e : Event) (t : TimerQueue) : Prop
  | stay (resetAt : e.resetAt = none) (readAt : e.readAt = none) (phase : t.phase = s.phase)
      (log : t.log = s.log)
  | cancel (timerId : TimerId) (cancels : s.cancelling e = some timerId) (live : s.Live timerId)
      (phase : t.phase = s.phase) (log : t.log = s.log ++ [.cancelled timerId.sequence])
  | read (now : ℤ) (event : e = .handleRead now) (phase : s.phase = .idle)
      (eq : t = s.getExpired now)
  | fire (started : List Entry) (next : Entry) (expired : List Entry) (timer : Timer)
      (event : e = .timeout) (phase : s.phase = .firing started (next :: expired))
      (object : s.heap next.address = some timer)
      (eq : t = { s with phase := .firing (started ++ [next]) expired }.call (.started timer))
  | turn (started : List Entry) (event : e = .beginReset) (phase : s.phase = .firing started [])
      (eq : t = { s with phase := .restarting started })
  | reset (next : Entry) (expired : List Entry) (timer : Timer) (now : ℤ)
      (event : e = .resetOne now) (phase : s.phase = .restarting (next :: expired))
      (object : s.heap next.address = some timer)
      (eq : t = { s with phase := .restarting expired }.resetOne next.address timer now)
  | finish (now : ℤ) (event : e = .rearm now) (phase : s.phase = .restarting [])
      (idle : t.phase = .idle) (heap : t.heap = s.heap) (pTimers : t.pTimers = s.pTimers)
      (log : t.log = s.log)

section Steps

variable {s t : TimerQueue} {e : Event}

lemma object_cancelling {timerId : TimerId} (h : s.cancelling e = some timerId)
    (hstep : step s e = some t) : ObjectStep s e t := by
  obtain ⟨functors, garbage, rfl⟩ := step_cancelling h hstep
  obtain ⟨log, hlog⟩ := { s with pendingFunctors := functors }.recordCancel_eq timerId
  unfold cancelInLoop eraseEntry
  rw [hlog]
  split
  · exact .cancel timerId h rfl rfl rfl
  · exact .same rfl rfl rfl

lemma object_step (hstep : step s e = some t) : ObjectStep s e t := by
  cases hcancel : s.cancelling e with
  | some timerId => exact object_cancelling hcancel hstep
  | none =>
    cases e with
    | addTimer address when interval now =>
      obtain ⟨hbound, hfree, -, rfl⟩ := step_addTimer hstep
      obtain ⟨timerfd, heq⟩ :=
        (s.newTimer address ⟨when, interval, s.sequeue + 1⟩).addTimerInLoop_eq
          address ⟨when, interval, s.sequeue + 1⟩ now
      rw [heq]
      exact .new address ⟨when, interval, s.sequeue + 1⟩ hbound hfree rfl rfl rfl rfl
    | queueTimer address when interval =>
      obtain ⟨hbound, hfree, rfl⟩ := step_queueTimer hstep
      exact .new address ⟨when, interval, s.sequeue + 1⟩ hbound hfree rfl rfl rfl rfl
    | cancelTimer timerId garbage => cases hcancel
    | queueCancel timerId =>
      obtain ⟨-, rfl⟩ := step_queueCancel hstep
      exact .same rfl rfl rfl
    | runFunctor garbage now =>
      obtain ⟨-, ⟨address, functors, timer, -, -, rfl⟩ | ⟨timerId, functors, hfunctors, -⟩⟩ :=
        step_runFunctor hstep
      · obtain ⟨timerfd, heq⟩ :=
          { s with pendingFunctors := functors }.addTimerInLoop_eq address timer now
        rw [heq]
        exact .same rfl rfl rfl
      · simp only [cancelling, hfunctors] at hcancel
        cases hcancel
    | expire =>
      obtain rfl := step_expire hstep
      exact .same rfl rfl rfl
    | handleRead now =>
      obtain ⟨-, rfl⟩ := step_handleRead hstep
      exact .same rfl rfl rfl
    | timeout =>
      obtain ⟨started, next, expired, timer, -, -, rfl⟩ := step_timeout hstep
      exact .same rfl rfl rfl
    | beginReset =>
      obtain ⟨started, -, rfl⟩ := step_beginReset hstep
      exact .same rfl rfl rfl
    | resetOne now =>
      obtain ⟨next, expired, timer, hphase, htimer, rfl⟩ := step_resetOne hstep
      refine .reset next expired timer now rfl hphase htimer ?_ ?_ ?_ <;> unfold resetOne <;>
        split <;> rfl
    | rearm now =>
      obtain ⟨-, ⟨-, rfl⟩ | ⟨next, timer, -, -, rfl⟩⟩ := step_rearm hstep
      · exact .same rfl rfl rfl
      · unfold rearm
        split <;> exact .same rfl rfl rfl

lemma phase_step (hstep : step s e = some t) : PhaseStep s e t := by
  cases hcancel : s.cancelling e with
  | some timerId =>
    obtain ⟨functors, garbage, rfl⟩ := step_cancelling hcancel hstep
    have hlog := log_cancelInLoop (s := { s with pendingFunctors := functors }) timerId garbage
    by_cases hlive : s.Live timerId
    · exact .cancel timerId hcancel hlive (phase_cancelInLoop ..) (hlog.trans (if_pos hlive))
    · have hclocks : e.resetAt = none ∧ e.readAt = none := by
        cases e with
        | cancelTimer | runFunctor => exact ⟨rfl, rfl⟩
        | _ => cases hcancel
      exact .stay hclocks.1 hclocks.2 (phase_cancelInLoop ..) (hlog.trans (if_neg hlive))
  | none =>
    cases e with
    | addTimer address when interval now =>
      obtain ⟨-, -, -, rfl⟩ := step_addTimer hstep
      exact .stay rfl rfl (phase_addTimerInLoop ..) (log_addTimerInLoop ..)
    | queueTimer address when interval =>
      obtain ⟨-, -, rfl⟩ := step_queueTimer hstep
      exact .stay rfl rfl rfl rfl
    | cancelTimer timerId garbage => cases hcancel
    | queueCancel timerId =>
      obtain ⟨-, rfl⟩ := step_queueCancel hstep
      exact .stay rfl rfl rfl rfl
    | runFunctor garbage now =>
      obtain ⟨-, ⟨address, functors, timer, -, -, rfl⟩ | ⟨timerId, functors, hfunctors, -⟩⟩ :=
        step_runFunctor hstep
      · exact .stay rfl rfl (phase_addTimerInLoop ..) (log_addTimerInLoop ..)
      · simp only [cancelling, hfunctors] at hcancel
        cases hcancel
    | expire =>
      obtain rfl := step_expire hstep
      exact .stay rfl rfl rfl rfl
    | handleRead now =>
      obtain ⟨hphase, heq⟩ := step_handleRead hstep
      exact .read now rfl hphase heq
    | timeout =>
      obtain ⟨started, next, expired, timer, hphase, htimer, heq⟩ := step_timeout hstep
      exact .fire started next expired timer rfl hphase htimer heq
    | beginReset =>
      obtain ⟨started, hphase, heq⟩ := step_beginReset hstep
      exact .turn started rfl hphase heq
    | resetOne now =>
      obtain ⟨next, expired, timer, hphase, htimer, heq⟩ := step_resetOne hstep
      exact .reset next expired timer now rfl hphase htimer heq
    | rearm now =>
      obtain ⟨hphase, hidle, hheap, hset, hlog⟩ := rearm_eq hstep
      exact .finish now rfl hphase hidle hheap hset hlog

end Steps

end RpcMuduo.TimerQueue
