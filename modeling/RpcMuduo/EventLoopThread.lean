import RpcMuduo.ConditionVariable
import RpcMuduo.EventLoopQuit

/-!
# EventLoopThread

The thread that owns the object, the thread it starts and the threads that use the pointer that
`startLoop` returns. The event loop lies on the stack of the started thread, which is thread 0 of
that loop; the owner is thread 1.
-/
namespace RpcMuduo
open ConditionVariable Run

namespace EventLoopThread

/-- Where the owner is; in `quitting` it is in the destructor, between the assignment of `quit` and
the test of the thread id that follows it. -/
inductive Owner
  | constructed
  | starting
  | waiting
  | returned
  | quitting
  | joining
  | destructed
  deriving DecidableEq

/-- Where `threadFunc` is: before its critical section, in `loop`, or at its end, where the event
loop is destructed. -/
inductive ThreadFunc
  | absent
  | entered
  | looping
  | finished
  deriving DecidableEq

end EventLoopThread

open EventLoopThread in
/-- `loop` tells whether the pointer is set, `eventLoop` is what it points to, and `touchedDead`
whether that was used after its destruction. -/
structure EventLoopThread where
  owner : Owner
  threadFunc : ThreadFunc
  loop : Bool
  cond : Waiters ℕ
  eventLoop : EventLoop
  touchedDead : Bool
  deriving DecidableEq

namespace EventLoopThread

inductive Event
  | start (created : Bool)
  | test
  | wakeUp
  | resume
  | publish (reached : List ℕ)
  | loopStep (e : EventLoop.Event)
  | use (e : EventLoop.Event)
  | finish
  | quit
  | quitWakeup
  | join
  deriving DecidableEq

def Event.ofLoop : Event → Bool
  | .loopStep e => e.ofLoop
  | _ => false

def Event.isPoll : Event → Bool
  | .loopStep e => e.isPoll
  | _ => false

/-- What a step may give the loop to do. -/
def Event.work : Event → ℕ
  | .loopStep e | .use e => e.work
  | _ => 0

def initial : EventLoopThread := ⟨.constructed, .absent, false, .none, .initial, false⟩

/-- The thread that calls a function of the event loop, other than `loop`. -/
def caller : EventLoop.Event → Option ℕ
  | .queueInLoop thread | .wakeup thread | .quit thread | .quitWakeup thread => some thread
  | _ => none

/-- `startLoop` has returned the pointer. -/
def Owner.hasPointer : Owner → Bool
  | .returned | .quitting | .joining | .destructed => true
  | .constructed | .starting | .waiting => false

/-- Where user code runs in the loop's own thread: not before `loop`, nor after it. -/
def InLoop (l : EventLoop) : Prop := l.phase ≠ .constructed ∧ l.phase ≠ .returned

instance (l : EventLoop) : Decidable (InLoop l) := inferInstanceAs (Decidable (_ ∧ _))

section Steps

variable (s : EventLoopThread)

/-- `while (_loop == NULL) _cond.wait()`, from the test on. -/
def testLoop : EventLoopThread :=
  if s.loop then { s with owner := .returned }
  else { s with owner := .waiting, cond := s.cond.wait 1 }

/-- A call through the pointer. -/
def touch (e : EventLoop.Event) : Option EventLoopThread :=
  if s.threadFunc = .finished then some { s with touchedDead := true }
  else (EventLoop.step s.eventLoop e).map fun l => { s with eventLoop := l }

end Steps

@[grind =] def step (s : EventLoopThread) : Event → Option EventLoopThread
  | .start created =>
    if s.owner = .constructed then
      some
        { s with
          owner := .starting
          threadFunc := if created then .entered else .absent }
    else none
  | .test => if s.owner = .starting then some s.testLoop else none
  | .wakeUp => if 1 ∈ s.cond.asleep then some { s with cond := s.cond.wakeUp 1 } else none
  | .resume =>
    if 1 ∈ s.cond.signalled ∨ 1 ∈ s.cond.spurious then
      some (testLoop { s with cond := s.cond.resume 1 })
    else none
  | .publish reached =>
    if s.threadFunc = .entered ∧ s.cond.Reachable reached then
      some { s with threadFunc := .looping, loop := true, cond := s.cond.notify reached }
    else none
  | .loopStep e =>
    if s.threadFunc = .looping ∧
        (e.ofLoop = true ∨ caller e = some 0 ∧ InLoop s.eventLoop) then
      (EventLoop.step s.eventLoop e).map fun l => { s with eventLoop := l }
    else none
  | .use e =>
    -- The owner is a user until it enters the destructor.
    if s.owner.hasPointer = true ∧ caller e ≠ none ∧ caller e ≠ some 0 ∧
        (caller e = some 1 → s.owner = .returned) then
      s.touch e
    else none
  | .finish =>
    if s.threadFunc = .looping ∧ s.eventLoop.phase = .returned then
      some { s with threadFunc := .finished }
    else none
  | .quit =>
    if s.owner = .returned ∧ 1 ∉ s.eventLoop.pushers ∧ 1 ∉ s.eventLoop.quitters then
      touch { s with owner := .quitting } (.quit 1)
    else none
  | .quitWakeup =>
    if s.owner = .quitting then touch { s with owner := .joining } (.quitWakeup 1) else none
  | .join =>
    if s.owner = .joining ∧ s.threadFunc = .finished then some { s with owner := .destructed }
    else none

/-- What the critical sections of `startLoop` and `threadFunc` keep. -/
structure Inv (s : EventLoopThread) : Prop where
  waiting : s.cond.asleep ++ s.cond.signalled ++ s.cond.spurious =
    if s.owner = .waiting then [1] else []
  asleep : s.cond.asleep ≠ [] → s.loop = false
  pointer : s.loop = true ↔ s.threadFunc = .looping ∨ s.threadFunc = .finished
  returned : s.owner.hasPointer = true → s.loop = true
  absent : s.owner = .constructed → s.threadFunc = .absent

section Startup

variable {s t : EventLoopThread}

lemma touch_eq_some {e : EventLoop.Event} (h : touch s e = some t) :
    t = { s with touchedDead := true } ∧ s.threadFunc = .finished ∨
      ∃ l, s.threadFunc ≠ .finished ∧ EventLoop.step s.eventLoop e = some l ∧
        t = { s with eventLoop := l } := by
  unfold touch at h
  split at h
  · rename_i hfinished
    exact Or.inl ⟨(Option.some.inj h).symm, hfinished⟩
  · rename_i hfinished
    obtain ⟨l, hl, rfl⟩ := Option.map_eq_some_iff.mp h
    exact Or.inr ⟨l, hfinished, hl, rfl⟩

/-- A call through the pointer leaves all but the event loop as it is. -/
lemma Inv.touch {owner : Owner} {e : EventLoop.Event} (h : Inv s)
    (hbefore : s.owner.hasPointer = true) (hafter : owner.hasPointer = true)
    (htouch : touch { s with owner := owner } e = some t) : Inv t := by
  have hinv : Inv { s with owner := owner } := by
    refine ⟨?_, h.asleep, h.pointer, fun _ => h.returned hbefore, ?_⟩
    · have hnot : owner ≠ .waiting := by
        rintro rfl
        cases hafter
      have hnot' : s.owner ≠ .waiting := by
        intro heq
        rw [heq] at hbefore
        cases hbefore
      have hw := h.waiting
      rw [if_neg hnot'] at hw
      simpa only [if_neg hnot] using hw
    · rintro rfl
      cases hafter
  rcases touch_eq_some htouch with ⟨rfl, -⟩ | ⟨l, -, -, rfl⟩
  · exact ⟨hinv.waiting, hinv.asleep, hinv.pointer, hinv.returned, hinv.absent⟩
  · exact ⟨hinv.waiting, hinv.asleep, hinv.pointer, hinv.returned, hinv.absent⟩

/-- The test of an owner that is in no queue of the condition variable. -/
lemma Inv.testLoop (hpointer : s.loop = true ↔ s.threadFunc = .looping ∨ s.threadFunc = .finished)
    (hnone : s.cond.asleep ++ s.cond.signalled ++ s.cond.spurious = []) : Inv s.testLoop := by
  simp only [List.append_eq_nil_iff] at hnone
  obtain ⟨⟨hasleep, hsignalled⟩, hspurious⟩ := hnone
  unfold EventLoopThread.testLoop
  split
  · rename_i hloop
    refine ⟨by simp [hasleep, hsignalled, hspurious], by simp [hasleep], hpointer,
      fun _ => hloop, by simp⟩
  · rename_i hloop
    rw [Bool.not_eq_true] at hloop
    refine ⟨by simp [Waiters.wait, hasleep, hsignalled, hspurious], fun _ => hloop, hpointer,
      by simp [Owner.hasPointer], by simp⟩

lemma Inv.queues (h : Inv s) : (s.cond.asleep = [] ∧ s.cond.signalled = [] ∧ s.cond.spurious = []) ∨
    (s.owner = .waiting ∧
      ((s.cond.asleep = [1] ∧ s.cond.signalled = [] ∧ s.cond.spurious = []) ∨
        (s.cond.asleep = [] ∧ s.cond.signalled = [1] ∧ s.cond.spurious = []) ∨
        (s.cond.asleep = [] ∧ s.cond.signalled = [] ∧ s.cond.spurious = [1]))) := by
  have hw := h.waiting
  split at hw
  · rename_i howner
    refine Or.inr ⟨howner, ?_⟩
    simp only [List.append_eq_singleton_iff, List.append_eq_nil_iff] at hw
    tauto
  · simp only [List.append_eq_nil_iff] at hw
    exact Or.inl ⟨hw.1.1, hw.1.2, hw.2⟩

lemma inv_wakeUp (h : Inv s) (hmem : 1 ∈ s.cond.asleep) :
    Inv { s with cond := s.cond.wakeUp 1 } := by
  rcases h.queues with ⟨hasleep, -⟩ | ⟨howner, ⟨hasleep, hsignalled, hspurious⟩ | ⟨hasleep, -⟩ |
    ⟨hasleep, -⟩⟩
  · simp [hasleep] at hmem
  · refine ⟨?_, ?_, h.pointer, h.returned, h.absent⟩
    · simp [Waiters.wakeUp, hasleep, hsignalled, hspurious, howner]
    · simp [Waiters.wakeUp, hasleep]
  · simp [hasleep] at hmem
  · simp [hasleep] at hmem

lemma inv_resume (h : Inv s) (hmem : 1 ∈ s.cond.signalled ∨ 1 ∈ s.cond.spurious) :
    Inv (testLoop { s with cond := s.cond.resume 1 }) := by
  refine Inv.testLoop h.pointer ?_
  rcases h.queues with ⟨hasleep, hsignalled, hspurious⟩ | ⟨-, ⟨hasleep, hsignalled, hspurious⟩ |
    ⟨hasleep, hsignalled, hspurious⟩ | ⟨hasleep, hsignalled, hspurious⟩⟩
  · simp [hsignalled, hspurious] at hmem
  · simp [hsignalled, hspurious] at hmem
  · simp [Waiters.resume, hasleep, hsignalled, hspurious]
  · simp [Waiters.resume, hasleep, hsignalled, hspurious]

lemma inv_publish (h : Inv s) (hentered : s.threadFunc = .entered) {reached : List ℕ}
    (hreached : s.cond.Reachable reached) :
    Inv { s with threadFunc := .looping, loop := true, cond := s.cond.notify reached } := by
  obtain ⟨hnodup, hasleep, hsome⟩ := hreached
  have hnil : s.cond.asleep = [] → reached = [] := by
    intro hnone
    refine List.eq_nil_iff_forall_not_mem.mpr fun c hc => ?_
    simpa [hnone] using hasleep c hc
  have howner : s.owner ≠ .constructed := by
    intro hconstructed
    rw [h.absent hconstructed] at hentered
    cases hentered
  suffices hqueues : (s.cond.notify reached).asleep = [] ∧
      (s.cond.notify reached).signalled ++ (s.cond.notify reached).spurious =
        if s.owner = .waiting then [1] else [] by
    refine ⟨?_, ?_, by simp, by simp, fun hconstructed => absurd hconstructed howner⟩
    · rw [hqueues.1, List.nil_append]
      exact hqueues.2
    · exact fun hne => absurd hqueues.1 hne
  rcases h.queues with ⟨hnone, hsignalled, hspurious⟩ | ⟨howner', ⟨hone, hsignalled, hspurious⟩ |
    ⟨hnone, hsignalled, hspurious⟩ | ⟨hnone, hsignalled, hspurious⟩⟩
  · have hw := h.waiting
    rw [hnone, hsignalled, hspurious] at hw
    simpa [Waiters.notify, hnone, hsignalled, hspurious, hnil hnone] using hw
  · have hreached : reached = [1] := by
      have hsubset : ∀ c ∈ reached, c = 1 := by
        intro c hc
        simpa [hone] using hasleep c hc
      have hlen : reached.length ≤ 1 := by
        have hsub := List.subperm_of_subset hnodup fun c hc => List.mem_singleton.mpr (hsubset c hc)
        exact hsub.length_le
      have hpos := List.length_pos_iff.mpr (hsome (by simp [hone]))
      obtain ⟨c, rfl⟩ := List.length_eq_one_iff.mp (Nat.le_antisymm hlen hpos)
      rw [hsubset c (by simp)]
    simp [Waiters.notify, hone, hsignalled, hspurious, hreached, howner']
  · simp [Waiters.notify, hnone, hsignalled, hspurious, hnil hnone, howner']
  · simp [Waiters.notify, hnone, hsignalled, hspurious, hnil hnone, howner']

lemma step_inv (h : Inv s) {e : Event} (hstep : step s e = some t) : Inv t := by
  cases e with
  | start created =>
    simp only [step, Option.ite_none_right_eq_some, Option.some.injEq] at hstep
    obtain ⟨howner, rfl⟩ := hstep
    have habsent := h.absent howner
    have hloop : ¬ s.loop = true := by
      rw [h.pointer, habsent]
      simp
    have hw := h.waiting
    rw [howner] at hw
    refine ⟨by simpa using hw, h.asleep, ?_, by simp [Owner.hasPointer], by simp⟩
    refine iff_of_false hloop ?_
    cases created <;> simp
  | test =>
    simp only [step, Option.ite_none_right_eq_some, Option.some.injEq] at hstep
    obtain ⟨howner, rfl⟩ := hstep
    have hw := h.waiting
    rw [howner] at hw
    exact Inv.testLoop h.pointer (by simpa using hw)
  | wakeUp =>
    simp only [step, Option.ite_none_right_eq_some, Option.some.injEq] at hstep
    obtain ⟨hmem, rfl⟩ := hstep
    exact inv_wakeUp h hmem
  | resume =>
    simp only [step, Option.ite_none_right_eq_some, Option.some.injEq] at hstep
    obtain ⟨hmem, rfl⟩ := hstep
    exact inv_resume h hmem
  | publish reached =>
    simp only [step, Option.ite_none_right_eq_some, Option.some.injEq] at hstep
    obtain ⟨⟨hentered, hreached⟩, rfl⟩ := hstep
    exact inv_publish h hentered hreached
  | loopStep e =>
    simp only [step, Option.ite_none_right_eq_some, Option.map_eq_some_iff] at hstep
    obtain ⟨-, l, -, rfl⟩ := hstep
    exact ⟨h.waiting, h.asleep, h.pointer, h.returned, h.absent⟩
  | use e =>
    simp only [step, Option.ite_none_right_eq_some] at hstep
    obtain ⟨⟨hpointer, -⟩, htouch⟩ := hstep
    exact h.touch hpointer hpointer htouch
  | finish =>
    simp only [step, Option.ite_none_right_eq_some, Option.some.injEq] at hstep
    obtain ⟨⟨hlooping, -⟩, rfl⟩ := hstep
    refine ⟨h.waiting, h.asleep, ?_, h.returned, ?_⟩
    · exact iff_of_true (h.pointer.mpr (Or.inl hlooping)) (Or.inr rfl)
    · intro howner
      have habsent := h.absent howner
      rw [hlooping] at habsent
      cases habsent
  | quit =>
    simp only [step, Option.ite_none_right_eq_some] at hstep
    obtain ⟨⟨howner, -⟩, htouch⟩ := hstep
    exact h.touch (by rw [howner]; rfl) rfl htouch
  | quitWakeup =>
    simp only [step, Option.ite_none_right_eq_some] at hstep
    obtain ⟨howner, htouch⟩ := hstep
    exact h.touch (by rw [howner]; rfl) rfl htouch
  | join =>
    simp only [step, Option.ite_none_right_eq_some, Option.some.injEq] at hstep
    obtain ⟨⟨howner, -⟩, rfl⟩ := hstep
    have hw := h.waiting
    rw [howner] at hw
    refine ⟨by simpa using hw, h.asleep, h.pointer, ?_, by simp⟩
    exact fun _ => h.returned (by rw [howner]; rfl)

lemma inv_initial : Inv initial := by
  refine ⟨?_, ?_, ?_, ?_, ?_⟩ <;> simp [initial, Waiters.none, Owner.hasPointer]

end Startup

/-- The step of the event loop that a step is. -/
inductive OnLoop (s : EventLoopThread) (e : Event) (l : EventLoop) : Prop
  | none (he : ∀ d, e ≠ .loopStep d) (heq : l = s.eventLoop)
  | loopStep (d : EventLoop.Event) (he : e = .loopStep d) (hlooping : s.threadFunc = .looping)
      (hcaller : d.ofLoop = true ∨ caller d = some 0 ∧ InLoop s.eventLoop)
      (hstep : EventLoop.step s.eventLoop d = some l)
  | call (d : EventLoop.Event) (he : e = .use d ∨ e = .quit ∧ d = .quit 1 ∨
        e = .quitWakeup ∧ d = .quitWakeup 1)
      (hcaller : caller d ≠ Option.none ∧ caller d ≠ some 0)
      (hlive : s.threadFunc ≠ .finished) (hstep : EventLoop.step s.eventLoop d = some l)

section Project

variable {s t : EventLoopThread} {e : Event}

lemma step_onLoop (hstep : step s e = some t) : OnLoop s e t.eventLoop := by
  cases e with
  | test =>
    simp only [step, Option.ite_none_right_eq_some, Option.some.injEq] at hstep
    obtain ⟨-, rfl⟩ := hstep
    refine .none (by simp) ?_
    unfold testLoop
    split <;> rfl
  | resume =>
    simp only [step, Option.ite_none_right_eq_some, Option.some.injEq] at hstep
    obtain ⟨-, rfl⟩ := hstep
    refine .none (by simp) ?_
    unfold testLoop
    split <;> rfl
  | start _ | wakeUp | publish _ | finish | join =>
    simp only [step, Option.ite_none_right_eq_some, Option.some.injEq] at hstep
    obtain ⟨-, rfl⟩ := hstep
    exact .none (by simp) rfl
  | loopStep d =>
    simp only [step, Option.ite_none_right_eq_some, Option.map_eq_some_iff] at hstep
    obtain ⟨⟨hlooping, hcaller⟩, l, hl, rfl⟩ := hstep
    exact .loopStep d rfl hlooping hcaller hl
  | use d =>
    simp only [step, Option.ite_none_right_eq_some] at hstep
    obtain ⟨⟨-, hsome, hne, -⟩, htouch⟩ := hstep
    rcases touch_eq_some htouch with ⟨rfl, -⟩ | ⟨l, hlive, hl, rfl⟩
    · exact .none (by simp) rfl
    · exact .call d (Or.inl rfl) ⟨hsome, hne⟩ hlive hl
  | quit =>
    simp only [step, Option.ite_none_right_eq_some] at hstep
    obtain ⟨-, htouch⟩ := hstep
    rcases touch_eq_some htouch with ⟨rfl, -⟩ | ⟨l, hlive, hl, rfl⟩
    · exact .none (by simp) rfl
    · exact .call _ (Or.inr (Or.inl ⟨rfl, rfl⟩)) (by simp [caller]) hlive hl
  | quitWakeup =>
    simp only [step, Option.ite_none_right_eq_some] at hstep
    obtain ⟨-, htouch⟩ := hstep
    rcases touch_eq_some htouch with ⟨rfl, -⟩ | ⟨l, hlive, hl, rfl⟩
    · exact .none (by simp) rfl
    · exact .call _ (Or.inr (Or.inr ⟨rfl, rfl⟩)) (by simp [caller]) hlive hl

/-- Rule of invariants for the event loop: the loop's own thread does not call its functions
before it is in `loop`. -/
lemma OnLoop.invariant {P : EventLoop → Prop} {l : EventLoop} (h : OnLoop s e l)
    (h0 : P s.eventLoop)
    (hstep : ∀ d, (caller d = some 0 → InLoop s.eventLoop) →
      EventLoop.step s.eventLoop d = some l → P l) : P l := by
  cases h with
  | none _ heq => exact heq ▸ h0
  | loopStep d _ _ hcaller hl =>
    refine hstep d (fun hzero => ?_) hl
    rcases hcaller with hown | ⟨-, hin⟩
    · cases d <;> simp [caller, EventLoop.Event.ofLoop] at hzero hown
    · exact hin
  | call d _ hcaller _ hl => exact hstep d (fun hzero => absurd hzero hcaller.2) hl

/-- No wake-up of the loop is lost: what is queued before `loop` is queued by other threads. -/
structure LoopInv (l : EventLoop) : Prop where
  wakeup : l.NoLostWakeup
  wake : l.WakeInv
  early : l.phase = .constructed → ∀ thread ∈ l.pendingFunctors, thread ≠ 0
  quitWakes : l.QuitWakes
  told : l.phase = .returned → l.quit = true

lemma early_step {l l' : EventLoop} {d : EventLoop.Event}
    (h : l.phase = .constructed → ∀ thread ∈ l.pendingFunctors, thread ≠ 0)
    (hcaller : caller d = some 0 → InLoop l) (hl : EventLoop.step l d = some l') :
    l'.phase = .constructed → ∀ thread ∈ l'.pendingFunctors, thread ≠ 0 := by
  intro hphase
  cases hd : d.ofLoop with
  | true =>
    obtain ⟨-, hcases⟩ := EventLoop.step_ofLoop hd hl
    rcases hcases with ⟨-, -, rfl⟩ | ⟨_, -, -, ht, -⟩ | ⟨_, _, -, -, ht, -⟩ | ⟨-, -, ht⟩ |
      ⟨_, _, -, -, ht⟩ | ⟨-, -, ht⟩
    · cases hquit : l.quit <;> simp [EventLoop.testQuit, hquit] at hphase
    · simp [ht] at hphase
    · simp [ht] at hphase
    · simp [ht] at hphase
    · simp [ht] at hphase
    · cases hquit : l.quit <;> simp [ht, hquit] at hphase
  | false =>
    have hbefore := (EventLoop.step_others hd hl).1.symm.trans hphase
    cases d with
    | queueInLoop thread =>
      have hne : thread ≠ 0 := by
        rintro rfl
        exact (hcaller rfl).1 hbefore
      simp only [EventLoop.step, hne, ne_eq, not_false_eq_true, if_true, Option.some.injEq] at hl
      subst hl
      simpa [or_imp, forall_and, hne] using h hbefore
    | wakeup thread | quitWakeup thread =>
      simp only [EventLoop.step, Option.ite_none_right_eq_some, Option.some.injEq] at hl
      obtain ⟨-, rfl⟩ := hl
      exact h hbefore
    | quit thread =>
      simp only [EventLoop.step] at hl
      split_ifs at hl <;> cases hl <;> exact h hbefore
    | loop | poll _ | handleEvent | swapFunctors | runFunctor | doneFunctors => cases hd

lemma step_loopInv (h : LoopInv s.eventLoop) (hstep : step s e = some t) : LoopInv t.eventLoop := by
  refine (step_onLoop hstep).invariant h fun d hcaller hl => ?_
  have henters : EventLoop.EntersAwake s.eventLoop d := by
    rintro rfl -
    simp only [EventLoop.step, Option.ite_none_right_eq_some] at hl
    cases hpending : s.eventLoop.pendingFunctors with
    | nil => exact Or.inl rfl
    | cons thread rest =>
      have hne := h.early hl.1 thread (by simp [hpending])
      exact Or.inr ⟨thread, by simp, hne⟩
  obtain ⟨hiff, hwake⟩ := EventLoop.step_wake h.wake h.wakeup hl
  exact ⟨hiff.mpr henters, hwake, early_step h.early hcaller hl,
    EventLoop.step_quitWakes h.quitWakes hl, EventLoop.step_returned h.told hl⟩

lemma loopInv_initial : LoopInv initial.eventLoop := by
  refine ⟨?_, EventLoop.wakeInv_initial, ?_, ?_, ?_⟩ <;>
    simp [initial, EventLoop.initial, EventLoop.NoLostWakeup, EventLoop.QuitWakes]

end Project

/-- In every reachable state: an owner that is back from `startLoop` has a pointer that is set;
one that sleeps in `wait` un-signalled does so while the pointer is not set; one that is still in
`startLoop` can go on, or the started thread can set the pointer, unless no thread was created;
and no functor waits in the started loop without a wake-up, whoever queued it. -/
theorem startLoop_handshake {es : List Event} {s : EventLoopThread}
    (hrun : run step initial es = some s) :
    (s.owner.hasPointer = true →
      s.loop = true ∧ (s.threadFunc = .looping ∨ s.threadFunc = .finished)) ∧
    (1 ∈ s.cond.asleep → s.loop = false) ∧
    (s.owner = .starting ∨ s.owner = .waiting → s.threadFunc = .absent ∨
      ∃ e t, step s e = some t ∧ (e = .test ∨ e = .resume ∨ ∃ reached, e = .publish reached)) ∧
    s.eventLoop.NoLostWakeup := by
  have h : Inv s := run_invariant (fun _ _ _ h hstep => step_inv h hstep) inv_initial hrun
  have hloop : LoopInv s.eventLoop := run_invariant (P := fun s => LoopInv s.eventLoop)
    (fun _ _ _ h hstep => step_loopInv h hstep) loopInv_initial hrun
  refine ⟨?_, fun hmem => h.asleep (List.ne_nil_of_mem hmem), ?_, hloop.wakeup⟩
  · exact fun hback => ⟨h.returned hback, h.pointer.mp (h.returned hback)⟩
  · rintro (hstarting | hwaiting)
    · exact Or.inr ⟨.test, _, if_pos hstarting, Or.inl rfl⟩
    · have hresume : 1 ∈ s.cond.signalled ∨ 1 ∈ s.cond.spurious → ∃ e t, step s e = some t ∧
          (e = .test ∨ e = .resume ∨ ∃ reached, e = .publish reached) :=
        fun hmem => ⟨.resume, _, if_pos hmem, Or.inr (Or.inl rfl)⟩
      have hw := h.waiting
      rw [if_pos hwaiting] at hw
      rcases h.queues with ⟨hasleep, hsignalled, hspurious⟩ | ⟨-, ⟨hasleep, -⟩ |
        ⟨-, hsignalled, -⟩ | ⟨-, -, hspurious⟩⟩
      · simp [hasleep, hsignalled, hspurious] at hw
      · have hnull := h.asleep (by simp [hasleep])
        cases hfunc : s.threadFunc with
        | absent => exact Or.inl rfl
        | entered =>
          have hreachable : s.cond.Reachable [1] := ⟨by simp, by simp [hasleep], by simp⟩
          exact Or.inr ⟨.publish [1], _, if_pos ⟨hfunc, hreachable⟩, Or.inr (Or.inr ⟨_, rfl⟩)⟩
        | looping =>
          have hset := h.pointer.mpr (Or.inl hfunc)
          rw [hnull] at hset
          cases hset
        | finished =>
          have hset := h.pointer.mpr (Or.inr hfunc)
          rw [hnull] at hset
          cases hset
      · exact Or.inr (hresume (Or.inl (by simp [hsignalled])))
      · exact Or.inr (hresume (Or.inr (by simp [hspurious])))

/-- The owner falls asleep before the started thread sets the pointer, and is woken for no reason
in between. -/
theorem startLoop_handshake_asleep : ∃ s, run step initial
      [.start true, .test, .wakeUp, .resume, .publish [1], .resume, .use (.queueInLoop 1),
        .loopStep .loop] = some s ∧
    s.owner.hasPointer = true ∧ s.loop = true ∧ s.eventLoop.NoLostWakeup := by
  obtain ⟨s, hs, howner⟩ := Option.map_eq_some_iff.mp (show (run step initial
    [.start true, .test, .wakeUp, .resume, .publish [1], .resume, .use (.queueInLoop 1),
      .loopStep .loop]).map EventLoopThread.owner = some .returned by decide)
  have hback : s.owner.hasPointer = true := by
    rw [howner]
    rfl
  have h := startLoop_handshake hs
  exact ⟨s, hs, hback, (h.1 hback).1, h.2.2.2⟩

end EventLoopThread

end RpcMuduo
