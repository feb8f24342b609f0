import RpcMuduo.EventLoop

/-!
# The order of pending functors

The event loop with its functors named: who pushed which, and in which batch each was pushed and
executed. The functors are of any type; the steps are those of `EventLoop`.
-/
namespace RpcMuduo.FunctorOrder
open Run

/-- A functor in a vector: `batch` is the number of swaps before its `push_back`. -/
structure Pushed (F : Type*) where
  thread : ℕ
  cb : F
  batch : ℕ
  deriving DecidableEq

/-- `executed` has with each functor the number of the batch that it was executed in. -/
structure State (F : Type*) where
  loop : EventLoop
  pendingFunctors : List (Pushed F)
  tempRuns : List (Pushed F)
  executed : List (Pushed F × ℕ)
  pushed : List (Pushed F)
  batches : ℕ
  deriving DecidableEq

variable {F : Type*}

def initial : State F := ⟨.initial, [], [], [], [], 0⟩

inductive Event (F : Type*)
  | queueInLoop (thread : ℕ) (cb : F)
  | runInLoop (thread : ℕ) (cb : F)
  | control (e : EventLoop.Event)

/-- What a step does to the vectors. -/
def functors (s : State F) : EventLoop.Event → State F
  | .swapFunctors =>
    { s with
      pendingFunctors := []
      tempRuns := s.pendingFunctors
      batches := s.batches + 1 }
  | .runFunctor =>
    match s.tempRuns with
    | [] => s
    | functor :: rest =>
      { s with tempRuns := rest, executed := s.executed ++ [(functor, s.batches)] }
  | _ => s

def queueInLoop (s : State F) (thread : ℕ) (cb : F) : Option (State F) :=
  (EventLoop.step s.loop (.queueInLoop thread)).map fun loop =>
    { s with
      loop := loop
      pendingFunctors := s.pendingFunctors ++ [⟨thread, cb, s.batches⟩]
      pushed := s.pushed ++ [⟨thread, cb, s.batches⟩] }

/-- `runInLoop` of the loop's own thread calls the functor on the spot. -/
@[grind =] def step (s : State F) : Event F → Option (State F)
  | .queueInLoop thread cb => queueInLoop s thread cb
  | .runInLoop thread cb =>
    if thread ≠ 0 then queueInLoop s thread cb
    else if s.loop.phase = .polling then none
    else some s
  | .control (.queueInLoop _) => none
  | .control e =>
    (EventLoop.step s.loop e).map fun loop => { functors s e with loop := loop }

/-- The rest of the batch, as the phase of the loop has it. -/
def tempRunsOf : EventLoop.Phase → List ℕ
  | .running tempRuns => tempRuns
  | _ => []

/-- Executed, then the rest of the batch, then what is pending: in the order of the pushes, and
what is executed or about to be was pushed before the swap of its batch. -/
structure InOrder (s : State F) : Prop where
  sequence : s.executed.map Prod.fst ++ s.tempRuns ++ s.pendingFunctors = s.pushed
  earlier : ∀ x ∈ s.executed, x.1.batch < x.2
  running : ∀ x ∈ s.tempRuns, x.batch < s.batches
  pending : ∀ x ∈ s.pendingFunctors, x.batch ≤ s.batches
  waiting : s.loop.pendingFunctors = s.pendingFunctors.map Pushed.thread
  batch : tempRunsOf s.loop.phase = s.tempRuns.map Pushed.thread

variable {s t : State F}

/-- Steps that leave the vectors alone. -/
def Plain : EventLoop.Event → Prop
  | .queueInLoop _ => False
  | .swapFunctors => False
  | .runFunctor => False
  | _ => True

lemma loop_plain {l l' : EventLoop} {e : EventLoop.Event} (he : Plain e)
    (h : EventLoop.step l e = some l') :
    l'.pendingFunctors = l.pendingFunctors ∧ tempRunsOf l'.phase = tempRunsOf l.phase := by
  have htest : ∀ m : EventLoop, tempRunsOf m.testQuit.phase = [] := by
    intro m
    simp only [EventLoop.testQuit]
    split <;> rfl
  cases e with
  | queueInLoop thread => exact he.elim
  | swapFunctors => exact he.elim
  | runFunctor => exact he.elim
  | wakeup thread =>
    simp only [EventLoop.step, Option.ite_none_right_eq_some, Option.some.injEq] at h
    obtain ⟨-, rfl⟩ := h
    exact ⟨rfl, rfl⟩
  | quit thread =>
    simp only [EventLoop.step] at h
    split_ifs at h <;> cases h <;> exact ⟨rfl, rfl⟩
  | quitWakeup thread =>
    simp only [EventLoop.step, Option.ite_none_right_eq_some, Option.some.injEq] at h
    obtain ⟨-, rfl⟩ := h
    exact ⟨rfl, rfl⟩
  | loop =>
    simp only [EventLoop.step, Option.ite_none_right_eq_some, Option.some.injEq] at h
    obtain ⟨hphase, rfl⟩ := h
    exact ⟨rfl, by rw [htest, hphase]; rfl⟩
  | poll activeChannels =>
    simp only [EventLoop.step, Option.ite_none_right_eq_some, Option.some.injEq] at h
    obtain ⟨hphase, rfl⟩ := h
    exact ⟨rfl, by rw [hphase]; rfl⟩
  | handleEvent =>
    simp only [EventLoop.step] at h
    split at h
    · rename_i source rest hphase
      obtain rfl := Option.some.inj h
      refine ⟨?_, by rw [hphase]; rfl⟩
      cases source <;> rfl
    · cases h
  | doneFunctors =>
    simp only [EventLoop.step, Option.ite_none_right_eq_some, Option.some.injEq] at h
    obtain ⟨hphase, rfl⟩ := h
    exact ⟨rfl, by rw [htest, hphase]; rfl⟩

lemma loop_queueInLoop {l l' : EventLoop} {thread : ℕ}
    (h : EventLoop.step l (.queueInLoop thread) = some l') :
    l'.pendingFunctors = l.pendingFunctors ++ [thread] ∧ l'.phase = l.phase := by
  simp only [EventLoop.step] at h
  split_ifs at h <;> cases h <;> exact ⟨rfl, rfl⟩

lemma inOrder_queueInLoop (hs : InOrder s) {thread : ℕ} {cb : F}
    (h : queueInLoop s thread cb = some t) : InOrder t := by
  obtain ⟨loop, hloop, rfl⟩ := Option.map_eq_some_iff.mp h
  obtain ⟨hpending, hphase⟩ := loop_queueInLoop hloop
  refine ⟨?_, hs.earlier, hs.running, ?_, ?_, ?_⟩
  · rw [← hs.sequence]
    simp only [List.append_assoc]
  · intro x hx
    rcases List.mem_append.mp hx with hx | hx
    · exact hs.pending x hx
    · rw [List.mem_singleton.mp hx]
  · rw [hpending, hs.waiting, List.map_append, List.map_singleton]
  · rw [hphase]
    exact hs.batch

/-- The swap: the batch before is at its end, and the pending functors become the next one. -/
lemma inOrder_swapFunctors (hs : InOrder s) (h : step s (.control .swapFunctors) = some t) :
    InOrder t := by
  obtain ⟨loop, hloop, rfl⟩ := Option.map_eq_some_iff.mp h
  simp only [EventLoop.step, Option.ite_none_right_eq_some, Option.some.injEq] at hloop
  obtain ⟨hphase, rfl⟩ := hloop
  have hdone : s.tempRuns = [] := by
    have hbatch := hs.batch
    rw [hphase] at hbatch
    exact List.map_eq_nil_iff.mp hbatch.symm
  have hsequence := hs.sequence
  rw [hdone, List.append_nil] at hsequence
  refine ⟨?_, hs.earlier, ?_, by simp [functors], rfl, hs.waiting⟩
  · simp only [functors, List.append_nil, hsequence]
  · intro x hx
    exact Nat.lt_succ_of_le (hs.pending x hx)

lemma inOrder_runFunctor (hs : InOrder s) (h : step s (.control .runFunctor) = some t) :
    InOrder t := by
  obtain ⟨loop, hloop, rfl⟩ := Option.map_eq_some_iff.mp h
  have hbatch := hs.batch
  have hsequence := hs.sequence
  have hrunning := hs.running
  simp only [EventLoop.step] at hloop
  split at hloop
  · rename_i thread rest hphase
    obtain rfl := Option.some.inj hloop
    rw [hphase] at hbatch
    cases hruns : s.tempRuns with
    | nil =>
      rw [hruns] at hbatch
      cases hbatch
    | cons functor functors' =>
      rw [hruns] at hbatch hsequence hrunning
      obtain ⟨-, hrest⟩ := List.cons.inj hbatch
      simp only [functors, hruns]
      refine ⟨?_, ?_, ?_, hs.pending, hs.waiting, hrest⟩
      · rw [← hsequence]
        simp
      · intro x hx
        rcases List.mem_append.mp hx with hx | hx
        · exact hs.earlier x hx
        · rw [List.mem_singleton.mp hx]
          exact hrunning functor List.mem_cons_self
      · intro x hx
        exact hrunning x (List.mem_cons_of_mem functor hx)
  · cases hloop

lemma inOrder_step (hs : InOrder s) {e : Event F} (h : step s e = some t) : InOrder t := by
  have hplain : ∀ {e : EventLoop.Event},
      (EventLoop.step s.loop e).map (fun loop => { functors s e with loop := loop }) = some t →
      Plain e → functors s e = s → InOrder t := by
    intro e h he hsame
    obtain ⟨loop, hloop, rfl⟩ := Option.map_eq_some_iff.mp h
    obtain ⟨hpending, hbatch⟩ := loop_plain he hloop
    rw [hsame]
    exact ⟨hs.sequence, hs.earlier, hs.running, hs.pending, hpending.trans hs.waiting,
      hbatch.trans hs.batch⟩
  cases e with
  | queueInLoop thread cb => exact inOrder_queueInLoop hs h
  | runInLoop thread cb =>
    simp only [step] at h
    split_ifs at h
    · exact inOrder_queueInLoop hs h
    · exact Option.some.inj h ▸ hs
  | control e =>
    cases e with
    | queueInLoop thread => cases h
    | swapFunctors => exact inOrder_swapFunctors hs h
    | runFunctor => exact inOrder_runFunctor hs h
    | _ => exact hplain h trivial rfl

/-- In every reachable state the functors executed, the rest of the batch and the pending functors
are, in this order, all functors pushed in the order of their pushes; and whatever was executed had
been pushed before the swap that made its batch, so nothing that a running functor queues is
executed in the batch that the functor is in. -/
theorem functors_in_order {es : List (Event F)} (h : run step initial es = some s) :
    s.executed.map (fun x => x.1.cb) ++ s.tempRuns.map Pushed.cb ++
        s.pendingFunctors.map Pushed.cb = s.pushed.map Pushed.cb ∧
      ∀ x ∈ s.executed, x.1.batch < x.2 := by
  have hinitial : InOrder (initial : State F) :=
    ⟨rfl, by simp [initial], by simp [initial], by simp [initial], rfl, rfl⟩
  have hs : InOrder s := run_invariant (fun _ _ _ hs hstep => inOrder_step hs hstep) hinitial h
  refine ⟨?_, hs.earlier⟩
  rw [← hs.sequence, List.map_append, List.map_append, List.map_map]
  rfl

/-- Functor 1 queues functor 3 while it runs; 2 comes from another thread. -/
theorem functors_in_order_requeued : ([1, 2] : List ℕ) ++ [] ++ [3] = [1, 2, 3] ∧
    ∀ x ∈ [((⟨0, 1, 0⟩ : Pushed ℕ), 1), (⟨5, 2, 0⟩, 1)], x.1.batch < x.2 := by
  have hrun : run step initial [.queueInLoop 0 1, .queueInLoop 5 2, .control .loop,
      .control (.poll [.eventfd]), .control .handleEvent, .control .swapFunctors,
      .control .runFunctor, .queueInLoop 0 3, .control .runFunctor, .control .doneFunctors] =
      some (⟨⟨false, false, .polling, [0], 1, [5], []⟩, [⟨0, 3, 1⟩], [],
        [(⟨0, 1, 0⟩, 1), (⟨5, 2, 0⟩, 1)], [⟨0, 1, 0⟩, ⟨5, 2, 0⟩, ⟨0, 3, 1⟩], 1⟩ : State ℕ) := by
    decide
  exact functors_in_order hrun

end RpcMuduo.FunctorOrder
