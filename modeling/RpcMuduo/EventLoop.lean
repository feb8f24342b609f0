import RpcMuduo.Run

/-!
# EventLoop

The thread of the loop, which is thread 0, and the other threads that queue functors. They push
the functor and write to the eventfd in two steps; `epoll_wait` has no timeout.
-/
namespace RpcMuduo
open Run

namespace EventLoop

/-- A channel that a poll returns: that of the eventfd, or one whose handler belongs to users of
the loop. -/
inductive Source
  | eventfd
  | other
  deriving DecidableEq

/-- Where the thread of the loop is; what is left of `activeChannels` or of `tempRuns`. -/
inductive Phase
  | constructed
  | polling
  | handling (activeChannels : List Source)
  | running (tempRuns : List ℕ)
  | returned
  deriving DecidableEq

end EventLoop

open EventLoop in
/-- A functor is known by the thread that queued it. `pushers` are the other threads between
`push_back` and their `wakeup`, `quitters` those between the assignment in `quit` and theirs. -/
structure EventLoop where
  quit : Bool
  callingPendingFunctors : Bool
  phase : Phase
  pendingFunctors : List ℕ
  eventfd : ℕ
  pushers : List ℕ
  quitters : List ℕ
  deriving DecidableEq

namespace EventLoop

inductive Event
  | queueInLoop (thread : ℕ)
  | wakeup (thread : ℕ)
  | quit (thread : ℕ)
  | quitWakeup (thread : ℕ)
  | loop
  | poll (activeChannels : List Source)
  | handleEvent
  | swapFunctors
  | runFunctor
  | doneFunctors
  deriving DecidableEq

def initial : EventLoop := ⟨false, false, .constructed, [], 0, [], []⟩

section Steps

variable (s : EventLoop)

/-- The write adds one to the counter, and fails when the counter is full. -/
def wakeup : EventLoop :=
  { s with eventfd := if s.eventfd < 2 ^ 64 - 2 then s.eventfd + 1 else s.eventfd }

/-- The test of `while (!_quit)`. -/
def testQuit : EventLoop := { s with phase := if s.quit then .returned else .polling }

/-- `handleRead` of the loop empties the counter. -/
def handleEvent : Source → EventLoop
  | .eventfd => { s with eventfd := 0 }
  | .other => s

end Steps

/-- Between two steps of the loop its thread may be in a handler or a functor of the user, so that
it may queue functors there, but not while it waits in `epoll_wait`. -/
@[grind =] def step (s : EventLoop) : Event → Option EventLoop
  | .queueInLoop thread =>
    let t := { s with pendingFunctors := s.pendingFunctors ++ [thread] }
    if thread ≠ 0 then some { t with pushers := s.pushers ++ [thread] }
    else if s.phase = .polling then none
    else if s.callingPendingFunctors then some t.wakeup
    else some t
  | .wakeup thread =>
    if thread ∈ s.pushers then some { s.wakeup with pushers := s.pushers.erase thread } else none
  | .quit thread =>
    if thread ≠ 0 then some { s with quit := true, quitters := s.quitters ++ [thread] }
    else if s.phase = .polling then none
    else some { s with quit := true }
  | .quitWakeup thread =>
    if thread ∈ s.quitters then some { s.wakeup with quitters := s.quitters.erase thread }
    else none
  | .loop => if s.phase = .constructed then some s.testQuit else none
  | .poll activeChannels =>
    if s.phase = .polling then some { s with phase := .handling activeChannels } else none
  | .handleEvent =>
    match s.phase with
    | .handling (source :: rest) => some { s.handleEvent source with phase := .handling rest }
    | _ => none
  | .swapFunctors =>
    if s.phase = .handling [] then
      some { s with
        callingPendingFunctors := true
        phase := .running s.pendingFunctors
        pendingFunctors := [] }
    else none
  | .runFunctor =>
    match s.phase with
    | .running (_ :: rest) => some { s with phase := .running rest }
    | _ => none
  | .doneFunctors =>
    if s.phase = .running [] then some { s with callingPendingFunctors := false }.testQuit
    else none

/-- The eventfd is readable, or will be as soon as another thread gets on. -/
def Awake (s : EventLoop) : Prop := 0 < s.eventfd ∨ s.pushers ≠ []

instance (s : EventLoop) : Decidable s.Awake := inferInstanceAs (Decidable (_ ∨ _))

/-- No functor waits while the loop is about to block for good. -/
def NoLostWakeup (s : EventLoop) : Prop :=
  s.phase = .polling → s.pendingFunctors ≠ [] → s.Awake

/-- Where `loop` is entered, nothing has been queued, or some of it by another thread. -/
def EntersAwake (s : EventLoop) (e : Event) : Prop :=
  e = .loop → s.quit = false →
    s.pendingFunctors = [] ∨ ∃ thread ∈ s.pendingFunctors, thread ≠ 0

/-- What holds in the phases. Before the loop is entered nobody reads the eventfd. -/
structure WakeInv (s : EventLoop) : Prop where
  calling : s.callingPendingFunctors = true ↔ ∃ tempRuns, s.phase = .running tempRuns
  quitting : s.quitters ≠ [] → s.quit = true
  constructed : s.phase = .constructed → s.quit = false →
    (s.Awake ↔ ∃ thread ∈ s.pendingFunctors, thread ≠ 0)
  running : ∀ tempRuns, s.phase = .running tempRuns → s.pendingFunctors ≠ [] → s.Awake

section Wake

variable {s t : EventLoop}

lemma awake_wakeup (s : EventLoop) : 0 < s.wakeup.eventfd := by
  simp only [wakeup]
  split <;> omega

/-- Nothing that the invariant speaks of has changed but the phase, which is none of those. -/
lemma WakeInv.handling (h : WakeInv s) {rest : List Source} (hphase : t.phase = .handling rest)
    (hcalling : t.callingPendingFunctors = false) (hquit : t.quit = s.quit)
    (hquitters : t.quitters = s.quitters) : NoLostWakeup t ∧ WakeInv t := by
  refine ⟨by simp [NoLostWakeup, hphase], ?_, ?_, by simp [hphase], by simp [hphase]⟩
  · simp [hcalling, hphase]
  · rw [hquit, hquitters]
    exact h.quitting

lemma step_queueInLoop (h : WakeInv s) {thread : ℕ}
    (hstep : step s (.queueInLoop thread) = some t) : NoLostWakeup t ∧ WakeInv t := by
  simp only [step] at hstep
  split at hstep
  · rename_i hthread
    obtain rfl := Option.some.inj hstep
    have hpushers : s.pushers ++ [thread] ≠ [] := by simp
    refine ⟨fun _ _ => Or.inr hpushers, h.calling, h.quitting, ?_, fun _ _ _ => Or.inr hpushers⟩
    intro _ _
    exact iff_of_true (Or.inr hpushers) ⟨thread, by simp, hthread⟩
  · rename_i hthread
    rw [not_not] at hthread
    subst hthread
    split at hstep
    · cases hstep
    · rename_i hphase
      split at hstep
      · rename_i hcalling
        obtain rfl := Option.some.inj hstep
        have hawake := awake_wakeup { s with pendingFunctors := s.pendingFunctors ++ [0] }
        obtain ⟨tempRuns, hrunning⟩ := h.calling.mp hcalling
        refine ⟨fun _ _ => Or.inl hawake, h.calling, h.quitting, ?_, fun _ _ _ => Or.inl hawake⟩
        intro hconstructed
        have hphase' : s.phase = .constructed := hconstructed
        rw [hrunning] at hphase'
        cases hphase'
      · rename_i hcalling
        obtain rfl := Option.some.inj hstep
        refine ⟨fun hpolling => absurd hpolling hphase, h.calling, h.quitting, ?_, ?_⟩
        · intro hconstructed hquit
          have hothers : (∃ thread ∈ s.pendingFunctors, thread ≠ 0) ↔
              ∃ thread ∈ s.pendingFunctors ++ [0], thread ≠ 0 := by simp
          exact (h.constructed hconstructed hquit).trans hothers
        · intro tempRuns hrunning
          exact absurd (h.calling.mpr ⟨tempRuns, hrunning⟩) hcalling

lemma step_wakeup (h : WakeInv s) {thread : ℕ} (hstep : step s (.wakeup thread) = some t) :
    NoLostWakeup t ∧ WakeInv t := by
  simp only [step, Option.ite_none_right_eq_some, Option.some.injEq] at hstep
  obtain ⟨hmem, rfl⟩ := hstep
  have hawake := awake_wakeup s
  refine ⟨fun _ _ => Or.inl hawake, h.calling, h.quitting, ?_, fun _ _ _ => Or.inl hawake⟩
  intro hconstructed hquit
  have hbefore : s.Awake := Or.inr (List.ne_nil_of_mem hmem)
  exact iff_of_true (Or.inl hawake) ((h.constructed hconstructed hquit).mp hbefore)

lemma step_quit (h : WakeInv s) (hwake : NoLostWakeup s) {thread : ℕ}
    (hstep : step s (.quit thread) = some t) : NoLostWakeup t ∧ WakeInv t := by
  have hquit : ∀ u : EventLoop, u.quit = true → u.phase = s.phase →
      u.callingPendingFunctors = s.callingPendingFunctors →
      u.pendingFunctors = s.pendingFunctors → (u.Awake ↔ s.Awake) → NoLostWakeup u ∧ WakeInv u := by
    intro u hu hphase hcalling hpending hawake
    refine ⟨?_, ?_, fun _ => hu, ?_, ?_⟩
    · rw [NoLostWakeup, hphase, hpending, hawake]
      exact hwake
    · rw [hcalling, hphase]
      exact h.calling
    · simp [hu]
    · rw [hphase, hpending, hawake]
      exact h.running
  simp only [step] at hstep
  split at hstep
  · obtain rfl := Option.some.inj hstep
    exact hquit _ rfl rfl rfl rfl Iff.rfl
  · split at hstep
    · cases hstep
    · obtain rfl := Option.some.inj hstep
      exact hquit _ rfl rfl rfl rfl Iff.rfl

lemma step_quitWakeup (h : WakeInv s) {thread : ℕ} (hstep : step s (.quitWakeup thread) = some t) :
    NoLostWakeup t ∧ WakeInv t := by
  simp only [step, Option.ite_none_right_eq_some, Option.some.injEq] at hstep
  obtain ⟨hmem, rfl⟩ := hstep
  have hawake := awake_wakeup s
  have hquit : s.quit = true := h.quitting (List.ne_nil_of_mem hmem)
  refine ⟨fun _ _ => Or.inl hawake, h.calling, fun _ => hquit, ?_, fun _ _ _ => Or.inl hawake⟩
  intro _ hnot
  have hnot' : s.quit = false := hnot
  rw [hquit] at hnot'
  cases hnot'

/-- Entering the loop is the one place where a wake-up may be missing. -/
lemma step_loop (h : WakeInv s) (hstep : step s .loop = some t) :
    (NoLostWakeup t ↔ EntersAwake s .loop) ∧ WakeInv t := by
  simp only [step, Option.ite_none_right_eq_some, Option.some.injEq] at hstep
  obtain ⟨hphase, rfl⟩ := hstep
  have hcalling : ¬ s.callingPendingFunctors = true := by
    rw [h.calling, hphase]
    rintro ⟨tempRuns, hrunning⟩
    cases hrunning
  cases hquit : s.quit with
  | true =>
    refine ⟨iff_of_true ?_ ?_, ?_, fun _ => hquit, ?_, ?_⟩ <;>
      simp [NoLostWakeup, EntersAwake, testQuit, hquit, hcalling]
  | false =>
    refine ⟨?_, ?_, h.quitting, ?_, ?_⟩
    · have hiff := h.constructed hphase hquit
      have hlost : NoLostWakeup s.testQuit ↔ (s.pendingFunctors ≠ [] → s.Awake) := by
        simp [NoLostWakeup, testQuit, hquit, Awake]
      rw [hlost, hiff, EntersAwake]
      simp only [hquit, forall_const]
      rw [or_iff_not_imp_left]
    all_goals simp [testQuit, hquit, hcalling]

lemma step_doneFunctors (h : WakeInv s) (hstep : step s .doneFunctors = some t) :
    NoLostWakeup t ∧ WakeInv t := by
  simp only [step, Option.ite_none_right_eq_some, Option.some.injEq] at hstep
  obtain ⟨hphase, rfl⟩ := hstep
  refine ⟨fun _ => h.running [] hphase, ?_, h.quitting, ?_, ?_⟩
  all_goals
    simp only [testQuit]
    split <;> simp

lemma step_wake (h : WakeInv s) (hwake : NoLostWakeup s) {e : Event}
    (hstep : step s e = some t) : (NoLostWakeup t ↔ EntersAwake s e) ∧ WakeInv t := by
  have hcalling : ∀ {phase}, s.phase = phase → (∀ tempRuns, phase ≠ .running tempRuns) →
      s.callingPendingFunctors = false := by
    intro phase hphase hne
    rw [← Bool.not_eq_true, h.calling]
    rintro ⟨tempRuns, hrunning⟩
    exact hne tempRuns (hphase ▸ hrunning)
  have hkept : ∀ e, e ≠ .loop → NoLostWakeup t ∧ WakeInv t →
      (NoLostWakeup t ↔ EntersAwake s e) ∧ WakeInv t := by
    intro e he ht
    exact ⟨iff_of_true ht.1 fun heq => absurd heq he, ht.2⟩
  cases e with
  | queueInLoop thread => exact hkept _ (by simp) (step_queueInLoop h hstep)
  | wakeup thread => exact hkept _ (by simp) (step_wakeup h hstep)
  | quit thread => exact hkept _ (by simp) (step_quit h hwake hstep)
  | quitWakeup thread => exact hkept _ (by simp) (step_quitWakeup h hstep)
  | loop => exact step_loop h hstep
  | poll activeChannels =>
    simp only [step, Option.ite_none_right_eq_some, Option.some.injEq] at hstep
    obtain ⟨hphase, rfl⟩ := hstep
    exact hkept _ (by simp) (h.handling rfl (hcalling hphase (by simp)) rfl rfl)
  | handleEvent =>
    simp only [step] at hstep
    split at hstep
    · rename_i source rest hphase
      obtain rfl := Option.some.inj hstep
      have hsame : (s.handleEvent source).callingPendingFunctors = s.callingPendingFunctors ∧
          (s.handleEvent source).quit = s.quit ∧
          (s.handleEvent source).quitters = s.quitters := by
        cases source <;> exact ⟨rfl, rfl, rfl⟩
      exact hkept _ (by simp) (h.handling rfl
        (hsame.1.trans (hcalling hphase (by simp))) hsame.2.1 hsame.2.2)
    · cases hstep
  | swapFunctors =>
    simp only [step, Option.ite_none_right_eq_some, Option.some.injEq] at hstep
    obtain ⟨-, rfl⟩ := hstep
    exact hkept _ (by simp) ⟨by simp [NoLostWakeup], by simp, h.quitting, by simp, by simp⟩
  | runFunctor =>
    simp only [step] at hstep
    split at hstep
    · rename_i thread rest hphase
      obtain rfl := Option.some.inj hstep
      have hrun := h.calling.mpr ⟨_, hphase⟩
      refine hkept _ (by simp) ⟨by simp [NoLostWakeup], by simp [hrun], h.quitting, by simp, ?_⟩
      intro _ _
      exact h.running _ hphase
    · cases hstep
  | doneFunctors => exact hkept _ (by simp) (step_doneFunctors h hstep)

lemma wakeInv_initial : WakeInv initial := by
  refine ⟨?_, ?_, ?_, ?_⟩ <;> simp [initial, Awake]

end Wake

/-- Wake-ups are not lost along a run exactly when the loop is not entered with nothing but
functors of its own thread in the queue. -/
theorem no_lost_wakeup_iff (es : List Event) :
    Always step NoLostWakeup initial es ↔ Guarded step EntersAwake initial es := by
  refine always_iff_guarded_of_invariant (Q := WakeInv) ?_ (by simp [NoLostWakeup, initial])
    wakeInv_initial es
  intro s e t hwake h hstep
  obtain ⟨hiff, hinv⟩ := step_wake h hwake hstep
  exact ⟨hiff, fun _ => hinv⟩

/-- A functor queued by the thread of the loop before it enters the loop. -/
theorem wakeup_lost_before_loop : ¬ Always step NoLostWakeup initial [.queueInLoop 0, .loop] := by
  intro h
  have hlast := always_run h (t := ⟨false, false, .polling, [0], 0, [], []⟩) (by decide)
  exact absurd (hlast rfl (by decide)) (by decide)

end EventLoop

end RpcMuduo
