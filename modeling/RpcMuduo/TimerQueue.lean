import RpcMuduo.Run
import RpcMuduo.SortedSet

/-!
# TimerQueue

The timers of an event loop: an ordered set of stamps and addresses, the `Timer` objects at these
addresses, and the timerfd that is armed for the first of them. The allocator may return any
address at which no `Timer` lives. Timestamps are microseconds.
-/
namespace RpcMuduo

namespace TimerQueue

/-- The greatest pointer; no object lies there. -/
def UINTPTR_MAX : ℕ := 2 ^ 64 - 1

/-- A `Timer` without its callback, which shows as the events between two timeouts. The interval
is in seconds. -/
structure Timer where
  stamp : ℤ
  interval : ℚ
  sequence : ℕ
  deriving DecidableEq

def Timer.isRepeat (timer : Timer) : Bool := 0 < timer.interval

/-- `Timestamp::nowAfter`, in exact arithmetic; the conversion to an integer truncates. -/
def nowAfter (now : ℤ) (seconds : ℚ) : ℤ :=
  let microSeconds := now + 1000 * 1000 * seconds
  microSeconds.num.tdiv microSeconds.den

def Timer.restart (timer : Timer) (now : ℤ) : Timer :=
  { timer with stamp := nowAfter now timer.interval }

structure TimerId where
  timer : ℕ
  sequence : ℕ
  deriving DecidableEq

/-- What other threads leave for the loop to run. -/
inductive Functor
  | addTimerInLoop (address : ℕ)
  | cancelInLoop (timerId : TimerId)
  deriving DecidableEq

/-- A stamp and the address of a `Timer`. -/
abbrev Entry := ℤ ×ₗ ℕ

def entry (stamp : ℤ) (address : ℕ) : Entry := toLex (stamp, address)

def Entry.stamp (e : Entry) : ℤ := (ofLex e).1

def Entry.address (e : Entry) : ℕ := (ofLex e).2

/-- The stamp and the delay with which the timerfd is armed, and whether it has expired since it
was last armed or read. -/
structure Timerfd where
  armed : Option (ℤ × ℤ)
  readable : Bool
  deriving DecidableEq

/-- Where the loop stands in `handleRead`: outside, in the loop over the expired timers, whose
callbacks have been started up to some point, or in `reset`. -/
inductive Phase
  | idle
  | firing (started : List Entry) (expired : List Entry)
  | restarting (expired : List Entry)
  deriving DecidableEq

inductive Called
  | started (timer : Timer)
  | cancelled (sequence : ℕ)
  deriving DecidableEq

end TimerQueue

open TimerQueue in
/-- `heap` gives the `Timer` objects that live; `issued` and `log` are histories. -/
structure TimerQueue where
  heap : ℕ → Option Timer
  sequeue : ℕ
  pendingFunctors : List TimerQueue.Functor
  pTimers : SortedSet TimerQueue.Entry
  timerfd : Timerfd
  phase : Phase
  issued : List TimerId
  log : List Called

namespace TimerQueue

/-- Additions and cancellations by the thread of the loop, and those by other threads. What the
stamp of a deleted `Timer` reads as is part of the event that reads it. -/
inductive Event
  | addTimer (address : ℕ) (when : ℤ) (interval : ℚ) (now : ℤ)
  | queueTimer (address : ℕ) (when : ℤ) (interval : ℚ)
  | cancelTimer (timerId : TimerId) (garbage : ℤ)
  | queueCancel (timerId : TimerId)
  | runFunctor (garbage now : ℤ)
  | expire
  | handleRead (now : ℤ)
  | timeout
  | beginReset
  | resetOne (now : ℤ)
  | rearm (now : ℤ)
  deriving DecidableEq

def initial : TimerQueue where
  heap := fun _ => none
  sequeue := 0
  pendingFunctors := []
  pTimers := .empty
  timerfd := ⟨none, false⟩
  phase := .idle
  issued := []
  log := []

section Steps

variable (s : TimerQueue)

def write (address : ℕ) (object : Option Timer) : TimerQueue :=
  { s with heap := Function.update s.heap address object }

/-- The object and the id that `addTimer` returns. -/
def newTimer (address : ℕ) (timer : Timer) : TimerQueue :=
  { s.write address (some timer) with
    sequeue := timer.sequence
    issued := s.issued ++ [⟨address, timer.sequence⟩] }

def queueInLoop (functor : Functor) : TimerQueue :=
  { s with pendingFunctors := s.pendingFunctors ++ [functor] }

def howMuchTimeFromNow (now stamp : ℤ) : ℤ := max (stamp - now) 100

/-- `timerfd_settime` disarms the timerfd when the delay is zero. -/
def resetTimerfd (now stamp : ℤ) : TimerQueue :=
  let delay := howMuchTimeFromNow now stamp
  { s with timerfd := ⟨if delay = 0 then none else some (stamp, delay), false⟩ }

/-- Whether the stamp is earlier than all in the set. -/
def earliestChanged (stamp : ℤ) : Bool :=
  match s.pTimers.first with
  | none => true
  | some e => stamp < e.stamp

def insert (address : ℕ) (timer : Timer) : TimerQueue :=
  { s with pTimers := s.pTimers.insert (entry timer.stamp address) }

def addTimerInLoop (address : ℕ) (timer : Timer) (now : ℤ) : TimerQueue :=
  if s.earliestChanged timer.stamp then (s.insert address timer).resetTimerfd now timer.stamp
  else s.insert address timer

def call (called : Called) : TimerQueue := { s with log := s.log ++ [called] }

def delete (address : ℕ) : TimerQueue := s.write address none

/-- `getStamp` through a pointer, which may dangle. -/
def getStamp (address : ℕ) (garbage : ℤ) : ℤ := ((s.heap address).map Timer.stamp).getD garbage

/-- The id is that of a timer that lives. -/
def Live (timerId : TimerId) : Prop :=
  ∃ timer, s.heap timerId.timer = some timer ∧ timer.sequence = timerId.sequence

instance (timerId : TimerId) : Decidable (s.Live timerId) :=
  match h : s.heap timerId.timer with
  | none => isFalse (by simp [Live, h])
  | some timer => decidable_of_iff (timer.sequence = timerId.sequence) (by simp [Live, h])

/-- The history only: the timer of the id was alive when `cancelInLoop` ran. -/
def recordCancel (timerId : TimerId) : TimerQueue :=
  if s.Live timerId then s.call (.cancelled timerId.sequence) else s

/-- The node is erased before its pointer is read again; it still holds the same address. -/
def eraseEntry (e : Entry) : TimerQueue :=
  if e ∈ s.pTimers then { s with pTimers := s.pTimers.erase e }.delete e.address else s

def cancelInLoop (timerId : TimerId) (garbage : ℤ) : TimerQueue :=
  (s.recordCancel timerId).eraseEntry (entry (s.getStamp timerId.timer garbage) timerId.timer)

/-- The start of `handleRead`: all entries up to `now` leave the set. -/
def getExpired (now : ℤ) : TimerQueue :=
  let sentry := entry now UINTPTR_MAX
  { s with
    pTimers := s.pTimers.above sentry
    timerfd := { s.timerfd with readable := false }
    phase := .firing [] (s.pTimers.below sentry).elems }

/-- One round of the loop of `reset`. -/
def resetOne (address : ℕ) (timer : Timer) (now : ℤ) : TimerQueue :=
  if timer.isRepeat then
    (s.write address (some (timer.restart now))).insert address (timer.restart now)
  else s.delete address

/-- The end of `reset`. -/
def rearm (nextExpire now : ℤ) : TimerQueue :=
  if 0 < nextExpire then s.resetTimerfd now nextExpire else s

/-- The loop is outside `handleRead`, or inside a callback. -/
def MayCall : Prop :=
  match s.phase with
  | .idle => True
  | .firing started _ => started ≠ []
  | .restarting _ => False

instance : Decidable s.MayCall := by
  unfold MayCall
  split <;> infer_instance

end Steps

@[grind =] def step (s : TimerQueue) : Event → Option TimerQueue
  | .addTimer address when interval now =>
    if address < UINTPTR_MAX ∧ s.heap address = none ∧ s.MayCall then
      let timer : Timer := ⟨when, interval, s.sequeue + 1⟩
      some ((s.newTimer address timer).addTimerInLoop address timer now)
    else none
  | .queueTimer address when interval =>
    if address < UINTPTR_MAX ∧ s.heap address = none then
      let timer : Timer := ⟨when, interval, s.sequeue + 1⟩
      some ((s.newTimer address timer).queueInLoop (.addTimerInLoop address))
    else none
  | .cancelTimer timerId garbage =>
    if timerId ∈ s.issued ∧ s.MayCall then some (s.cancelInLoop timerId garbage) else none
  | .queueCancel timerId =>
    if timerId ∈ s.issued then some (s.queueInLoop (.cancelInLoop timerId)) else none
  | .runFunctor garbage now =>
    match s.phase, s.pendingFunctors with
    | .idle, .addTimerInLoop address :: functors =>
      (s.heap address).map fun timer =>
        { s with pendingFunctors := functors }.addTimerInLoop address timer now
    | .idle, .cancelInLoop timerId :: functors =>
      some ({ s with pendingFunctors := functors }.cancelInLoop timerId garbage)
    | _, _ => none
  | .expire =>
    if s.timerfd.armed = none then none else some { s with timerfd := ⟨none, true⟩ }
  | .handleRead now => if s.phase = .idle then some (s.getExpired now) else none
  | .timeout =>
    match s.phase with
    | .firing started (e :: expired) =>
      (s.heap e.address).map fun timer =>
        { s with phase := .firing (started ++ [e]) expired }.call (.started timer)
    | _ => none
  | .beginReset =>
    match s.phase with
    | .firing started [] => some { s with phase := .restarting started }
    | _ => none
  | .resetOne now =>
    match s.phase with
    | .restarting (e :: expired) =>
      (s.heap e.address).map fun timer =>
        { s with phase := .restarting expired }.resetOne e.address timer now
    | _ => none
  | .rearm now =>
    match s.phase with
    | .restarting [] =>
      match s.pTimers.first with
      | none => some { s with phase := .idle }
      | some e => (s.heap e.address).map fun timer =>
          { s with phase := .idle }.rearm timer.stamp now
    | _ => none

section StepCases

variable {s t : TimerQueue}

@[simp] lemma heap_write_self (address : ℕ) (object : Option Timer) :
    (s.write address object).heap address = object := Function.update_self ..

@[simp] lemma heap_write_of_ne {a address : ℕ} (h : a ≠ address) (object : Option Timer) :
    (s.write address object).heap a = s.heap a := Function.update_of_ne h ..

lemma step_addTimer {address : ℕ} {when : ℤ} {interval : ℚ} {now : ℤ}
    (h : step s (.addTimer address when interval now) = some t) :
    address < UINTPTR_MAX ∧ s.heap address = none ∧ s.MayCall ∧
      t = (s.newTimer address ⟨when, interval, s.sequeue + 1⟩).addTimerInLoop address
        ⟨when, interval, s.sequeue + 1⟩ now := by
  simp only [step, Option.ite_none_right_eq_some, Option.some.injEq] at h
  exact ⟨h.1.1, h.1.2.1, h.1.2.2, h.2.symm⟩

lemma step_queueTimer {address : ℕ} {when : ℤ} {interval : ℚ}
    (h : step s (.queueTimer address when interval) = some t) :
    address < UINTPTR_MAX ∧ s.heap address = none ∧
      t = (s.newTimer address ⟨when, interval, s.sequeue + 1⟩).queueInLoop
        (.addTimerInLoop address) := by
  simp only [step, Option.ite_none_right_eq_some, Option.some.injEq] at h
  exact ⟨h.1.1, h.1.2, h.2.symm⟩

lemma step_cancelTimer {timerId : TimerId} {garbage : ℤ}
    (h : step s (.cancelTimer timerId garbage) = some t) :
    timerId ∈ s.issued ∧ s.MayCall ∧ t = s.cancelInLoop timerId garbage := by
  simp only [step, Option.ite_none_right_eq_some, Option.some.injEq] at h
  exact ⟨h.1.1, h.1.2, h.2.symm⟩

lemma step_queueCancel {timerId : TimerId} (h : step s (.queueCancel timerId) = some t) :
    timerId ∈ s.issued ∧ t = s.queueInLoop (.cancelInLoop timerId) := by
  simp only [step, Option.ite_none_right_eq_some, Option.some.injEq] at h
  exact ⟨h.1, h.2.symm⟩

lemma step_runFunctor {garbage now : ℤ} (h : step s (.runFunctor garbage now) = some t) :
    s.phase = .idle ∧
      ((∃ address functors timer, s.pendingFunctors = .addTimerInLoop address :: functors ∧
          s.heap address = some timer ∧
          t = { s with pendingFunctors := functors }.addTimerInLoop address timer now) ∨
        ∃ timerId functors, s.pendingFunctors = .cancelInLoop timerId :: functors ∧
          t = { s with pendingFunctors := functors }.cancelInLoop timerId garbage) := by
  simp only [step] at h
  split at h
  · rename_i address functors hphase hfunctors
    obtain ⟨timer, htimer, rfl⟩ := Option.map_eq_some_iff.mp h
    exact ⟨hphase, Or.inl ⟨address, functors, timer, hfunctors, htimer, rfl⟩⟩
  · rename_i timerId functors hphase hfunctors
    exact ⟨hphase, Or.inr ⟨timerId, functors, hfunctors, (Option.some.inj h).symm⟩⟩
  · cases h

lemma step_expire (h : step s .expire = some t) : t = { s with timerfd := ⟨none, true⟩ } := by
  simp only [step, Option.ite_none_left_eq_some, Option.some.injEq] at h
  exact h.2.symm

lemma step_handleRead {now : ℤ} (h : step s (.handleRead now) = some t) :
    s.phase = .idle ∧ t = s.getExpired now := by
  simp only [step, Option.ite_none_right_eq_some, Option.some.injEq] at h
  exact ⟨h.1, h.2.symm⟩

lemma step_timeout (h : step s .timeout = some t) : ∃ started e expired timer,
    s.phase = .firing started (e :: expired) ∧ s.heap e.address = some timer ∧
      t = { s with phase := .firing (started ++ [e]) expired }.call (.started timer) := by
  simp only [step] at h
  split at h
  · rename_i started e expired hphase
    obtain ⟨timer, htimer, rfl⟩ := Option.map_eq_some_iff.mp h
    exact ⟨started, e, expired, timer, hphase, htimer, rfl⟩
  · cases h

lemma step_beginReset (h : step s .beginReset = some t) : ∃ started,
    s.phase = .firing started [] ∧ t = { s with phase := .restarting started } := by
  simp only [step] at h
  split at h
  · rename_i started hphase
    exact ⟨started, hphase, (Option.some.inj h).symm⟩
  · cases h

lemma step_resetOne {now : ℤ} (h : step s (.resetOne now) = some t) : ∃ e expired timer,
    s.phase = .restarting (e :: expired) ∧ s.heap e.address = some timer ∧
      t = { s with phase := .restarting expired }.resetOne e.address timer now := by
  simp only [step] at h
  split at h
  · rename_i e expired hphase
    obtain ⟨timer, htimer, rfl⟩ := Option.map_eq_some_iff.mp h
    exact ⟨e, expired, timer, hphase, htimer, rfl⟩
  · cases h

lemma step_rearm {now : ℤ} (h : step s (.rearm now) = some t) : s.phase = .restarting [] ∧
    ((s.pTimers.first = none ∧ t = { s with phase := .idle }) ∨
      ∃ e timer, s.pTimers.first = some e ∧ s.heap e.address = some timer ∧
        t = { s with phase := .idle }.rearm timer.stamp now) := by
  simp only [step] at h
  split at h
  · rename_i hphase
    refine ⟨hphase, ?_⟩
    split at h
    · rename_i hfirst
      exact Or.inl ⟨hfirst, (Option.some.inj h).symm⟩
    · rename_i e hfirst
      obtain ⟨timer, htimer, rfl⟩ := Option.map_eq_some_iff.mp h
      exact Or.inr ⟨e, timer, hfirst, htimer, rfl⟩
  · cases h

end StepCases

end TimerQueue

end RpcMuduo
