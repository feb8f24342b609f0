import RpcMuduo.TimerOwnership

/-!
# The timerfd is armed early enough

An addition arms the timerfd only if it comes before all others, a cancellation never does, and
`reset` only for a positive stamp. Outside `handleRead` every timer is covered nevertheless.
-/
namespace RpcMuduo.TimerQueue
open Run

/-- The timerfd has expired, or is armed with a target that is not later. -/
def ArmedFor (s : TimerQueue) (stamp : ℤ) : Prop :=
  s.timerfd.readable = true ∨
    ∃ target delay, s.timerfd.armed = some (target, delay) ∧ target ≤ stamp

/-- Outside `handleRead` the timerfd is armed for the earliest timer. -/
def ArmedEarly (s : TimerQueue) : Prop :=
  s.phase = .idle → ∀ e, s.pTimers.first = some e → s.ArmedFor e.stamp

/-- `gettimeofday` gives the time since the epoch, to `handleRead` and to `restart`. -/
def PastEpoch (_ : TimerQueue) : Event → Prop
  | .handleRead now | .resetOne now => 0 < now
  | _ => True

/-- Inside `handleRead`, where the timerfd may have been read, the stamps for which `reset` will
not arm it are covered. -/
def Covered (s : TimerQueue) : Prop :=
  ∀ e ∈ s.pTimers, s.ArmedFor e.stamp ∨ (s.phase ≠ .idle ∧ 0 < e.stamp)

section Entries

lemma stamp_of_not_lt {e : Entry} {now : ℤ} {address : ℕ} (h : ¬ e < entry now address) :
    now ≤ e.stamp := stamp_mono (not_lt.mp h)

lemma nowAfter_pos {now : ℤ} (hnow : 0 < now) {seconds : ℚ} (hseconds : 0 < seconds) :
    0 < nowAfter now seconds := by
  have hnow' : (1 : ℚ) ≤ now := by exact_mod_cast hnow
  have hone : (1 : ℚ) ≤ now + 1000 * 1000 * seconds := by linarith
  unfold nowAfter
  generalize (now : ℚ) + 1000 * 1000 * seconds = microSeconds at hone
  have hden : (0 : ℚ) < microSeconds.den := by exact_mod_cast microSeconds.den_pos
  have hle : (microSeconds.den : ℤ) ≤ microSeconds.num := by
    rw [← Rat.num_div_den microSeconds, one_le_div hden] at hone
    exact_mod_cast hone
  have hnum : 0 ≤ microSeconds.num := by omega
  rw [Int.tdiv_eq_ediv_of_nonneg hnum]
  have hquotient : 1 ≤ microSeconds.num / microSeconds.den :=
    Int.le_ediv_of_mul_le (by exact_mod_cast microSeconds.den_pos) (by omega)
  omega

end Entries

section Arming

variable {s t : TimerQueue}

lemma armedFor_mono {stamp stamp' : ℤ} (h : s.ArmedFor stamp) (hle : stamp ≤ stamp') :
    s.ArmedFor stamp' := by
  rcases h with h | ⟨target, delay, harmed, htarget⟩
  · exact Or.inl h
  · exact Or.inr ⟨target, delay, harmed, htarget.trans hle⟩

/-- The minimal delay keeps the timerfd from being disarmed. -/
lemma armedFor_resetTimerfd (now stamp : ℤ) : (s.resetTimerfd now stamp).ArmedFor stamp := by
  have hdelay : howMuchTimeFromNow now stamp ≠ 0 := by
    unfold howMuchTimeFromNow
    omega
  refine Or.inr ⟨stamp, howMuchTimeFromNow now stamp, ?_, le_rfl⟩
  simp [resetTimerfd, hdelay]

lemma covered_of_subset (h : Covered s) (hset : ∀ e ∈ t.pTimers, e ∈ s.pTimers)
    (htimerfd : t.timerfd = s.timerfd) (hphase : s.phase ≠ .idle → t.phase ≠ .idle) :
    Covered t := by
  intro e he
  rcases h e (hset e he) with harmed | ⟨hbusy, hpos⟩
  · left
    rwa [ArmedFor, htimerfd]
  · exact Or.inr ⟨hphase hbusy, hpos⟩

lemma covered_resetTimerfd {stamp : ℤ} (hstamp : ∀ e ∈ s.pTimers, stamp ≤ e.stamp) (now : ℤ) :
    Covered (s.resetTimerfd now stamp) := by
  intro e he
  exact Or.inl (armedFor_mono (armedFor_resetTimerfd now stamp) (hstamp e he))

/-- An addition that comes before all others arms the timerfd; any other comes after a timer that
is covered. -/
lemma covered_addTimerInLoop (h : Covered s) (address : ℕ) (timer : Timer) (now : ℤ) :
    Covered (s.addTimerInLoop address timer now) := by
  unfold addTimerInLoop earliestChanged
  cases hfirst : s.pTimers.first with
  | none =>
    refine covered_resetTimerfd ?_ now
    intro e he
    rcases SortedSet.mem_insert.mp he with rfl | he
    · exact le_rfl
    · obtain ⟨e', he'⟩ := SortedSet.exists_first he
      rw [hfirst] at he'
      cases he'
  | some first =>
    by_cases hearlier : timer.stamp < first.stamp
    · simp only [hearlier, decide_true, ↓reduceIte]
      refine covered_resetTimerfd ?_ now
      intro e he
      rcases SortedSet.mem_insert.mp he with rfl | he
      · exact le_rfl
      · exact hearlier.le.trans (stamp_mono (SortedSet.first_le hfirst he))
    · simp only [hearlier, decide_false, Bool.false_eq_true, ↓reduceIte]
      intro e he
      rcases SortedSet.mem_insert.mp he with rfl | he
      · have hle : first.stamp ≤ timer.stamp := not_lt.mp hearlier
        rcases h first (SortedSet.first_mem hfirst) with harmed | ⟨hbusy, hpos⟩
        · exact Or.inl (armedFor_mono harmed hle)
        · exact Or.inr ⟨hbusy, hpos.trans_le hle⟩
      · exact h e he

lemma covered_cancelInLoop (h : Covered s) (timerId : TimerId) (garbage : ℤ) :
    Covered (s.cancelInLoop timerId garbage) := by
  obtain ⟨log, hlog⟩ := s.recordCancel_eq timerId
  unfold cancelInLoop eraseEntry
  rw [hlog]
  split
  · exact covered_of_subset h (fun e he => (SortedSet.mem_erase.mp he).2) rfl fun hbusy => hbusy
  · exact h

lemma covered_resetOne (h : Covered s) (hbusy : s.phase ≠ .idle) (address : ℕ) (timer : Timer)
    {now : ℤ} (hnow : 0 < now) : Covered (s.resetOne address timer now) := by
  unfold resetOne
  split
  · rename_i hrepeat
    have hinterval : 0 < timer.interval := by simpa [Timer.isRepeat] using hrepeat
    intro e he
    rcases SortedSet.mem_insert.mp he with rfl | he
    · exact Or.inr ⟨hbusy, nowAfter_pos hnow hinterval⟩
    · exact h e he
  · exact h

/-- The end of `reset` arms the timerfd, or the first timer is covered and with it all. -/
lemma covered_rearm (ho : Owned 0 s) (h : Covered s) {now : ℤ}
    (hstep : step s (.rearm now) = some t) : Covered t := by
  obtain ⟨-, ⟨hfirst, rfl⟩ | ⟨first, timer, hfirst, htimer, rfl⟩⟩ := step_rearm hstep
  · intro e he
    obtain ⟨e', he'⟩ := SortedSet.exists_first (s := s.pTimers) he
    rw [hfirst] at he'
    cases he'
  · have hstamp := ho.key first (SortedSet.first_mem hfirst) timer htimer
    have hle : ∀ e ∈ s.pTimers, first.stamp ≤ e.stamp := fun e he =>
      stamp_mono (SortedSet.first_le hfirst he)
    unfold rearm
    split
    · exact covered_resetTimerfd (s := { s with phase := .idle }) (hstamp ▸ hle) now
    · rename_i hvalid
      rcases h first (SortedSet.first_mem hfirst) with harmed | ⟨-, hpos⟩
      · intro e he
        exact Or.inl (armedFor_mono (s := s) harmed (hle e he))
      · omega

lemma covered_step (ho : Owned 0 s) (h : Covered s) {e : Event} (hclock : s.PastEpoch e)
    (hstep : step s e = some t) : Covered t := by
  cases e with
  | addTimer address when interval now =>
    obtain ⟨-, -, -, rfl⟩ := step_addTimer hstep
    have hnew : Covered (s.newTimer address ⟨when, interval, s.sequeue + 1⟩) := h
    exact covered_addTimerInLoop hnew address ⟨when, interval, s.sequeue + 1⟩ now
  | queueTimer address when interval =>
    obtain ⟨-, -, rfl⟩ := step_queueTimer hstep
    exact h
  | cancelTimer timerId garbage =>
    obtain ⟨-, -, rfl⟩ := step_cancelTimer hstep
    exact covered_cancelInLoop h timerId garbage
  | queueCancel timerId =>
    obtain ⟨-, rfl⟩ := step_queueCancel hstep
    exact h
  | runFunctor garbage now =>
    obtain ⟨-, ⟨address, functors, timer, -, -, rfl⟩ | ⟨timerId, functors, -, rfl⟩⟩ :=
      step_runFunctor hstep
    · exact covered_addTimerInLoop (s := { s with pendingFunctors := functors }) h address timer now
    · exact covered_cancelInLoop (s := { s with pendingFunctors := functors }) h timerId garbage
  | expire =>
    obtain rfl := step_expire hstep
    intro e he
    exact Or.inl (Or.inl rfl)
  | handleRead now =>
    obtain ⟨-, rfl⟩ := step_handleRead hstep
    intro e he
    have hlate := stamp_of_not_lt (SortedSet.mem_above.mp he).2
    exact Or.inr ⟨by simp [getExpired], lt_of_lt_of_le hclock hlate⟩
  | timeout =>
    obtain ⟨started, e, expired, timer, -, -, rfl⟩ := step_timeout hstep
    exact covered_of_subset h (fun _ he => he) rfl fun _ => by simp [call]
  | beginReset =>
    obtain ⟨started, -, rfl⟩ := step_beginReset hstep
    exact covered_of_subset h (fun _ he => he) rfl fun _ => by simp
  | resetOne now =>
    obtain ⟨e, expired, timer, -, -, rfl⟩ := step_resetOne hstep
    have hpop : Covered { s with phase := .restarting expired } :=
      covered_of_subset h (fun _ he => he) rfl fun _ => by simp
    exact covered_resetOne hpop (by simp) e.address timer hclock
  | rearm now => exact covered_rearm ho h hstep

end Arming

/-- A timer that adds a timer with a negative stamp in its callback. -/
def negativeStamp : List Event :=
  [.addTimer 16 100 1 50, .expire, .handleRead 100, .timeout, .addTimer 32 (-5) 0 101, .beginReset,
    .resetOne 102, .rearm 103]

end RpcMuduo.TimerQueue
