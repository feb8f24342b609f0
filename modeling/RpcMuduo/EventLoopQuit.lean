import RpcMuduo.EventLoop

/-!
# Quitting the event loop

A call of `quit` by any thread, at any moment from construction on, ends `loop`: a loop that waits
in `epoll_wait` is woken, and after the call it polls and runs functors at most once more.
-/
namespace RpcMuduo
open Run

namespace EventLoop

/-- The steps that `loop` itself takes. -/
def Event.ofLoop : Event → Bool
  | .loop | .poll _ | .handleEvent | .swapFunctors | .runFunctor | .doneFunctors => true
  | .queueInLoop _ | .wakeup _ | .quit _ | .quitWakeup _ => false

def Event.isPoll : Event → Bool
  | .poll _ => true
  | _ => false

def Event.isQuit : Event → Bool
  | .quit _ => true
  | _ => false

/-- What a step may give the loop to do: a handler for every active channel, or a functor. -/
def Event.work : Event → ℕ
  | .poll activeChannels => activeChannels.length
  | .queueInLoop _ => 1
  | _ => 0

/-- The polls that a loop makes once it has been told to quit. -/
def pollsLeft (s : EventLoop) : ℕ := if s.phase = .polling then 1 else 0

/-- The steps that a loop takes once it has been told to quit. -/
def stepsLeft (s : EventLoop) : ℕ :=
  match s.phase with
  | .constructed => 1
  | .polling => s.pendingFunctors.length + 3
  | .handling activeChannels => activeChannels.length + s.pendingFunctors.length + 2
  | .running tempRuns => tempRuns.length + 1
  | .returned => 0

/-- A loop that has been told to quit and waits in `epoll_wait` is woken. -/
def QuitWakes (s : EventLoop) : Prop :=
  s.phase = .polling → s.quit = true → 0 < s.eventfd ∨ s.quitters ≠ []

section Quit

variable {s t : EventLoop} {e : Event}

/-- The other steps leave the loop where it is. -/
lemma step_others (he : e.ofLoop = false) (hstep : step s e = some t) :
    t.phase = s.phase ∧ t.pendingFunctors.length ≤ s.pendingFunctors.length + e.work ∧
      (t.quit = (s.quit || e.isQuit)) := by
  cases e with
  | queueInLoop thread =>
    simp only [step] at hstep
    split_ifs at hstep <;> cases hstep <;> simp [Event.work, Event.isQuit, EventLoop.wakeup]
  | wakeup thread | quitWakeup thread =>
    simp only [step, Option.ite_none_right_eq_some, Option.some.injEq] at hstep
    obtain ⟨-, rfl⟩ := hstep
    simp [Event.work, Event.isQuit, EventLoop.wakeup]
  | quit thread =>
    simp only [step] at hstep
    split_ifs at hstep <;> cases hstep <;> simp [Event.work, Event.isQuit]
  | loop | poll _ | handleEvent | swapFunctors | runFunctor | doneFunctors => cases he

/-- Where the loop stands before and after a step of its own. -/
lemma step_ofLoop (he : e.ofLoop = true) (hstep : step s e = some t) :
    t.quit = s.quit ∧
      ((e = .loop ∧ s.phase = .constructed ∧ t = s.testQuit) ∨
        (∃ activeChannels, e = .poll activeChannels ∧ s.phase = .polling ∧
          t.phase = .handling activeChannels ∧ t.pendingFunctors = s.pendingFunctors) ∨
        (∃ source rest, e = .handleEvent ∧ s.phase = .handling (source :: rest) ∧
          t.phase = .handling rest ∧ t.pendingFunctors = s.pendingFunctors) ∨
        (e = .swapFunctors ∧ s.phase = .handling [] ∧ t.phase = .running s.pendingFunctors) ∨
        (∃ thread rest, e = .runFunctor ∧ s.phase = .running (thread :: rest) ∧
          t.phase = .running rest) ∨
        (e = .doneFunctors ∧ s.phase = .running [] ∧
          t.phase = if s.quit then .returned else .polling)) := by
  cases e with
  | loop =>
    simp only [step, Option.ite_none_right_eq_some, Option.some.injEq] at hstep
    obtain ⟨hphase, rfl⟩ := hstep
    exact ⟨rfl, Or.inl ⟨rfl, hphase, rfl⟩⟩
  | poll activeChannels =>
    simp only [step, Option.ite_none_right_eq_some, Option.some.injEq] at hstep
    obtain ⟨hphase, rfl⟩ := hstep
    exact ⟨rfl, Or.inr (Or.inl ⟨activeChannels, rfl, hphase, rfl, rfl⟩)⟩
  | handleEvent =>
    simp only [step] at hstep
    split at hstep
    · rename_i source rest hphase
      obtain rfl := Option.some.inj hstep
      cases source <;>
        exact ⟨rfl, Or.inr (Or.inr (Or.inl ⟨_, rest, rfl, hphase, rfl, rfl⟩))⟩
    · cases hstep
  | swapFunctors =>
    simp only [step, Option.ite_none_right_eq_some, Option.some.injEq] at hstep
    obtain ⟨hphase, rfl⟩ := hstep
    exact ⟨rfl, Or.inr (Or.inr (Or.inr (Or.inl ⟨rfl, hphase, rfl⟩)))⟩
  | runFunctor =>
    simp only [step] at hstep
    split at hstep
    · rename_i thread rest hphase
      obtain rfl := Option.some.inj hstep
      exact ⟨rfl, Or.inr (Or.inr (Or.inr (Or.inr (Or.inl ⟨thread, rest, rfl, hphase, rfl⟩))))⟩
    · cases hstep
  | doneFunctors =>
    simp only [step, Option.ite_none_right_eq_some, Option.some.injEq] at hstep
    obtain ⟨hphase, rfl⟩ := hstep
    exact ⟨rfl, Or.inr (Or.inr (Or.inr (Or.inr (Or.inr ⟨rfl, hphase, rfl⟩))))⟩
  | queueInLoop _ | wakeup _ | quit _ | quitWakeup _ => cases he

lemma step_quit_eq (hstep : step s e = some t) : t.quit = (s.quit || e.isQuit) := by
  cases he : e.ofLoop with
  | false => exact (step_others he hstep).2.2
  | true =>
    have hno : e.isQuit = false := by cases e <;> simp_all [Event.ofLoop, Event.isQuit]
    rw [(step_ofLoop he hstep).1, hno, Bool.or_false]

/-- Once told to quit the loop polls no more than once. -/
lemma step_pollsLeft (hquit : s.quit = true) (hstep : step s e = some t) :
    t.quit = true ∧ (if e.isPoll then 1 else 0) + t.pollsLeft ≤ s.pollsLeft + 0 := by
  refine ⟨by rw [step_quit_eq hstep, hquit, Bool.true_or], ?_⟩
  cases he : e.ofLoop with
  | false =>
    have hno : e.isPoll = false := by cases e <;> simp_all [Event.ofLoop, Event.isPoll]
    simp only [pollsLeft, (step_others he hstep).1, hno]
    simp
  | true =>
    obtain ⟨-, h⟩ := step_ofLoop he hstep
    rcases h with ⟨rfl, hs, rfl⟩ | ⟨_, rfl, hs, ht, -⟩ | ⟨_, _, rfl, hs, ht, -⟩ | ⟨rfl, hs, ht⟩ |
      ⟨_, _, rfl, hs, ht⟩ | ⟨rfl, hs, ht⟩
    · simp [pollsLeft, testQuit, Event.isPoll, hquit]
    all_goals simp [pollsLeft, Event.isPoll, hs, ht, hquit]

/-- Once told to quit the loop has finitely many steps to go, but for what it is given to do. -/
lemma step_stepsLeft (hquit : s.quit = true) (hstep : step s e = some t) :
    t.quit = true ∧ (if e.ofLoop then 1 else 0) + t.stepsLeft ≤ s.stepsLeft + e.work := by
  refine ⟨by rw [step_quit_eq hstep, hquit, Bool.true_or], ?_⟩
  cases he : e.ofLoop with
  | false =>
    obtain ⟨hphase, hpending, -⟩ := step_others he hstep
    simp only [stepsLeft, hphase, Bool.false_eq_true, if_false, Nat.zero_add]
    split <;> omega
  | true =>
    obtain ⟨-, h⟩ := step_ofLoop he hstep
    rcases h with ⟨rfl, hs, rfl⟩ | ⟨_, rfl, hs, ht, hp⟩ | ⟨_, _, rfl, hs, ht, hp⟩ | ⟨rfl, hs, ht⟩ |
      ⟨_, _, rfl, hs, ht⟩ | ⟨rfl, hs, ht⟩
    · simp [stepsLeft, testQuit, Event.work, hs, hquit]
    · simp only [stepsLeft, hs, ht, hp, Event.work, if_true]
      omega
    · simp only [stepsLeft, hs, ht, hp, Event.work, if_true, List.length_cons]
      omega
    · simp only [stepsLeft, hs, ht, Event.work, if_true, List.length_nil]
      omega
    · simp only [stepsLeft, hs, ht, Event.work, if_true, List.length_cons]
      omega
    · simp [stepsLeft, hs, ht, hquit]

/-- A loop that has been told to quit never goes back to `epoll_wait`. -/
lemma step_polling (hstep : step s e = some t) (hquit : t.quit = true)
    (hphase : t.phase = .polling) : e.ofLoop = false ∧ s.phase = .polling := by
  cases he : e.ofLoop with
  | false => exact ⟨rfl, (step_others he hstep).1 ▸ hphase⟩
  | true =>
    obtain ⟨hsame, h⟩ := step_ofLoop he hstep
    rw [hsame] at hquit
    rcases h with ⟨-, -, rfl⟩ | ⟨_, -, -, ht, -⟩ | ⟨_, _, -, -, ht, -⟩ | ⟨-, -, ht⟩ |
      ⟨_, _, -, -, ht⟩ | ⟨-, -, ht⟩
    · simp [testQuit, hquit] at hphase
    all_goals simp [ht, hquit] at hphase

/-- What other threads do while the loop waits in `epoll_wait`. -/
lemma step_eventfd (he : e.ofLoop = false) (hpolling : s.phase = .polling)
    (hstep : step s e = some t) :
    0 < t.eventfd ∨ t.eventfd = s.eventfd ∧ t.quit = s.quit ∧ t.quitters = s.quitters ∨
      t.eventfd = s.eventfd ∧ t.quitters ≠ [] := by
  cases e with
  | queueInLoop thread =>
    simp only [step, hpolling] at hstep
    split_ifs at hstep with hthread
    cases hstep
    exact Or.inr (Or.inl ⟨rfl, rfl, rfl⟩)
  | wakeup thread | quitWakeup thread =>
    simp only [step, Option.ite_none_right_eq_some, Option.some.injEq] at hstep
    obtain ⟨-, rfl⟩ := hstep
    exact Or.inl (awake_wakeup s)
  | quit thread =>
    simp only [step, hpolling] at hstep
    split_ifs at hstep with hthread
    cases hstep
    exact Or.inr (Or.inr ⟨rfl, by simp⟩)
  | loop | poll _ | handleEvent | swapFunctors | runFunctor | doneFunctors => cases he

/-- Only another thread can tell a loop to quit that waits in `epoll_wait`, and it is counted
among the quitters until it has written to the eventfd. -/
lemma step_quitWakes (h : QuitWakes s) (hstep : step s e = some t) : QuitWakes t := by
  intro hphase hquit
  obtain ⟨he, hpolling⟩ := step_polling hstep hquit hphase
  rcases step_eventfd he hpolling hstep with hpos | ⟨heventfd, hsame, hquitters⟩ | ⟨-, hsome⟩
  · exact Or.inl hpos
  · rw [heventfd, hquitters]
    exact h hpolling (hsame ▸ hquit)
  · exact Or.inr hsome

lemma run_quit_iff {es : List Event} (hrun : run step s es = some t) :
    t.quit = true ↔ s.quit = true ∨ ∃ e ∈ es, e.isQuit = true := by
  induction es generalizing s with
  | nil =>
    simp only [run_nil, Option.some.injEq] at hrun
    subst hrun
    simp
  | cons e es ih =>
    obtain ⟨u, hu, hrun⟩ := run_cons_iff.mp hrun
    rw [ih hrun, step_quit_eq hu, Bool.or_eq_true, List.exists_mem_cons_iff, or_assoc]

/-- The loop has returned only where it was told to. -/
lemma step_returned (h : s.phase = .returned → s.quit = true) (hstep : step s e = some t) :
    t.phase = .returned → t.quit = true := by
  intro hphase
  cases he : e.ofLoop with
  | false =>
    obtain ⟨hsame, -, hquit⟩ := step_others he hstep
    rw [hquit, h (hsame ▸ hphase), Bool.true_or]
  | true =>
    obtain ⟨hsame, hcases⟩ := step_ofLoop he hstep
    rw [hsame]
    rcases hcases with ⟨-, -, rfl⟩ | ⟨_, -, -, ht, -⟩ | ⟨_, _, -, -, ht, -⟩ | ⟨-, -, ht⟩ |
      ⟨_, _, -, -, ht⟩ | ⟨-, -, ht⟩
    · simpa [testQuit] using hphase
    · simp [ht] at hphase
    · simp [ht] at hphase
    · simp [ht] at hphase
    · simp [ht] at hphase
    · simpa [ht] using hphase

/-- A loop can take a step as long as it need not wait in `epoll_wait` for what may never come. -/
lemma exists_ofLoop (hphase : s.phase ≠ .returned)
    (hreadable : s.phase = .polling → 0 < s.eventfd) : ∃ e t, step s e = some t ∧
      e.ofLoop = true ∧ (e.isPoll = true → 0 < s.eventfd) := by
  cases hp : s.phase with
  | constructed => exact ⟨.loop, _, if_pos hp, rfl, by simp [Event.isPoll]⟩
  | polling => exact ⟨.poll [.eventfd], _, if_pos hp, rfl, fun _ => hreadable hp⟩
  | handling activeChannels =>
    cases activeChannels with
    | nil => exact ⟨.swapFunctors, _, if_pos hp, rfl, by simp [Event.isPoll]⟩
    | cons source rest =>
      exact ⟨.handleEvent, _, by simp only [step, hp]; rfl, rfl, by simp [Event.isPoll]⟩
  | running tempRuns =>
    cases tempRuns with
    | nil => exact ⟨.doneFunctors, _, if_pos hp, rfl, by simp [Event.isPoll]⟩
    | cons thread rest =>
      exact ⟨.runFunctor, _, by simp only [step, hp]; rfl, rfl, by simp [Event.isPoll]⟩
  | returned => exact absurd hp hphase

/-- A loop that has been told to quit can take a step, or a thread is about to wake it. -/
lemma exists_step (hwakes : QuitWakes s) (hquit : s.quit = true) (hphase : s.phase ≠ .returned) :
    ∃ e t, step s e = some t ∧
      ((∃ thread, e = .quitWakeup thread) ∨
        e.ofLoop = true ∧ (e.isPoll = true → 0 < s.eventfd)) := by
  by_cases hquitters : s.quitters = []
  · have hreadable : s.phase = .polling → 0 < s.eventfd := by
      intro hpolling
      exact (hwakes hpolling hquit).resolve_right (absurd hquitters)
    obtain ⟨e, t, hstep, he⟩ := exists_ofLoop hphase hreadable
    exact ⟨e, t, hstep, Or.inr he⟩
  · obtain ⟨thread, hthread⟩ := List.exists_mem_of_ne_nil _ hquitters
    exact ⟨.quitWakeup thread, _, if_pos hthread, Or.inl ⟨thread, rfl⟩⟩

end Quit

/-- A loop returns only where some thread has called `quit`. Where one has, before `loop` is
entered or at any moment after, the loop polls at most once more, takes no more steps than are
left to it and than it is given to do, and until it has returned it is never left to wait: it can
take a step, which is a poll only where the eventfd is readable, or a thread is about to write to
the eventfd. -/
theorem quit_ends_loop {es : List Event} {s : EventLoop} (hrun : run step initial es = some s) :
    (s.phase = .returned → ∃ e ∈ es, e.isQuit = true) ∧
    ((∃ e ∈ es, e.isQuit = true) → ∀ fs t, run step s fs = some t →
      fs.countP Event.isPoll ≤ 1 ∧
      fs.countP Event.ofLoop ≤ s.stepsLeft + (fs.map Event.work).sum ∧
      (t.phase ≠ .returned → ∃ e u, step t e = some u ∧
        ((∃ thread, e = .quitWakeup thread) ∨
          e.ofLoop = true ∧ (e.isPoll = true → 0 < t.eventfd)))) := by
  have hiff : s.quit = true ↔ ∃ e ∈ es, e.isQuit = true := by
    rw [run_quit_iff hrun]
    simp [initial]
  constructor
  · intro hreturned
    have hkept := run_invariant (P := fun s => s.phase = .returned → s.quit = true)
      (fun _ _ _ h hstep => step_returned h hstep) (by simp [initial]) hrun
    exact hiff.mp (hkept hreturned)
  · intro hcalled fs t hrest
    have hquit := hiff.mpr hcalled
    have hpolls : fs.countP Event.isPoll + t.pollsLeft ≤ s.pollsLeft + (fs.map fun _ => 0).sum :=
      run_potential (fun _ _ _ h hstep => step_pollsLeft h hstep) hquit hrest
    have hsteps : fs.countP Event.ofLoop + t.stepsLeft ≤ s.stepsLeft + (fs.map Event.work).sum :=
      run_potential (fun _ _ _ h hstep => step_stepsLeft h hstep) hquit hrest
    have hone : s.pollsLeft ≤ 1 := by
      unfold pollsLeft
      split <;> omega
    have hwakes : QuitWakes t := by
      refine run_invariant (fun _ _ _ h hstep => step_quitWakes h hstep) ?_ hrest
      refine run_invariant (fun _ _ _ h hstep => step_quitWakes h hstep) ?_ hrun
      simp [QuitWakes, initial]
    have hquit' : t.quit = true := (run_quit_iff hrest).mpr (Or.inl hquit)
    refine ⟨?_, by omega, exists_step hwakes hquit'⟩
    simp only [List.map_const', List.sum_replicate, smul_zero] at hpolls
    omega

/-- A thread calls `quit` while the loop waits in `epoll_wait`. -/
theorem quit_ends_loop_waiting : ∃ s, run step initial [.loop, .quit 1] = some s ∧
    s.phase = .polling ∧ ∀ fs t, run step s fs = some t → fs.countP Event.isPoll ≤ 1 := by
  have hrun : run step initial [.loop, .quit 1] =
      some ⟨true, false, .polling, [], 0, [], [1]⟩ := by decide
  exact ⟨_, hrun, rfl, fun fs t hrest => ((quit_ends_loop hrun).2 (by decide) fs t hrest).1⟩

end EventLoop

end RpcMuduo
