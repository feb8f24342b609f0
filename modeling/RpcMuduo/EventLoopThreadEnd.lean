import RpcMuduo.EventLoopThread

/-!
# The destructor of EventLoopThread

It tells the loop to quit and joins the thread. It is never left to wait; but it uses the event
loop once more after the loop may have ended.
-/
namespace RpcMuduo
open Run

namespace EventLoopThread

/-- The owner is in the destructor. -/
def Owner.inDestructor : Owner → Bool
  | .quitting | .joining | .destructed => true
  | .constructed | .starting | .waiting | .returned => false

/-- What the destructor has done; the loop's thread ends only where its loop has returned. -/
structure DestructorInv (s : EventLoopThread) : Prop where
  inv : Inv s
  loop : LoopInv s.eventLoop
  told : s.owner.inDestructor = true → s.eventLoop.quit = true
  finished : s.threadFunc = .finished → s.eventLoop.phase = .returned
  quitting : s.owner = .quitting → s.threadFunc = .finished ∨ 1 ∈ s.eventLoop.quitters
  woken : s.owner = .joining → s.eventLoop.phase = .polling → 0 < s.eventLoop.eventfd

section Destructor

variable {s t : EventLoopThread} {e : Event}

lemma mem_quitters_step {l l' : EventLoop} {d : EventLoop.Event} {thread : ℕ}
    (hmem : thread ∈ l.quitters) (hd : d ≠ .quitWakeup thread)
    (hl : EventLoop.step l d = some l') : thread ∈ l'.quitters := by
  cases d with
  | queueInLoop other =>
    simp only [EventLoop.step] at hl
    split_ifs at hl <;> cases hl <;> exact hmem
  | wakeup other =>
    simp only [EventLoop.step, Option.ite_none_right_eq_some, Option.some.injEq] at hl
    obtain ⟨-, rfl⟩ := hl
    exact hmem
  | quit other =>
    simp only [EventLoop.step] at hl
    split_ifs at hl <;> cases hl
    · exact List.mem_append_left _ hmem
    · exact hmem
  | quitWakeup other =>
    simp only [EventLoop.step, Option.ite_none_right_eq_some, Option.some.injEq] at hl
    obtain ⟨-, rfl⟩ := hl
    have hne : thread ≠ other := by
      rintro rfl
      exact hd rfl
    exact (List.mem_erase_of_ne hne).mpr hmem
  | handleEvent =>
    simp only [EventLoop.step] at hl
    split at hl
    · rename_i source rest hphase
      obtain rfl := Option.some.inj hl
      cases source <;> exact hmem
    · cases hl
  | runFunctor =>
    simp only [EventLoop.step] at hl
    split at hl
    · obtain rfl := Option.some.inj hl
      exact hmem
    · cases hl
  | loop | poll _ | swapFunctors | doneFunctors =>
    simp only [EventLoop.step, Option.ite_none_right_eq_some, Option.some.injEq] at hl
    obtain ⟨-, rfl⟩ := hl
    exact hmem

/-- A loop that was told to quit and woken stays so. -/
lemma woken_step {l l' : EventLoop} {d : EventLoop.Event} (hquit : l.quit = true)
    (h : l.phase = .polling → 0 < l.eventfd) (hl : EventLoop.step l d = some l') :
    l'.phase = .polling → 0 < l'.eventfd := by
  intro hphase
  have hquit' : l'.quit = true := by rw [EventLoop.step_quit_eq hl, hquit, Bool.true_or]
  obtain ⟨hd, hpolling⟩ := EventLoop.step_polling hl hquit' hphase
  rcases EventLoop.step_eventfd hd hpolling hl with hpos | ⟨heq, -⟩ | ⟨heq, -⟩
  · exact hpos
  · exact heq ▸ h hpolling
  · exact heq ▸ h hpolling

lemma quit_step {l l' : EventLoop} {d : EventLoop.Event} (hquit : l.quit = true)
    (hl : EventLoop.step l d = some l') : l'.quit = true := by
  rw [EventLoop.step_quit_eq hl, hquit, Bool.true_or]

/-- Steps that are not of the owner. -/
lemma DestructorInv.of_owner (h : DestructorInv s) (hinv : Inv t) (hloop : LoopInv t.eventLoop)
    (howner : t.owner = s.owner) (hfunc : t.threadFunc = s.threadFunc)
    (honLoop : t.eventLoop = s.eventLoop ∨ ∃ d, s.threadFunc ≠ .finished ∧
      EventLoop.step s.eventLoop d = some t.eventLoop ∧
        (s.owner = .quitting → d ≠ .quitWakeup 1)) : DestructorInv t := by
  rcases honLoop with heq | ⟨d, hlive, hl, hd⟩
  · refine ⟨hinv, hloop, ?_, ?_, ?_, ?_⟩ <;> rw [heq] <;> simp only [howner, hfunc]
    · exact h.told
    · exact h.finished
    · exact h.quitting
    · exact h.woken
  · refine ⟨hinv, hloop, ?_, ?_, ?_, ?_⟩
    · rw [howner]
      exact fun hin => quit_step (h.told hin) hl
    · rw [hfunc]
      exact fun hfinished => absurd hfinished hlive
    · rw [howner, hfunc]
      intro hquitting
      rcases h.quitting hquitting with hfinished | hmem
      · exact absurd hfinished hlive
      · exact Or.inr (mem_quitters_step hmem (hd hquitting) hl)
    · rw [howner]
      intro hjoining
      exact woken_step (h.told (by rw [hjoining]; rfl)) (h.woken hjoining) hl

/-- Steps of an owner that is not in the destructor. -/
lemma DestructorInv.outside (h : DestructorInv s) (hinv : Inv t) (heq : t.eventLoop = s.eventLoop)
    (hfunc : t.threadFunc = .finished → s.threadFunc = .finished)
    (howner : t.owner.inDestructor = false) : DestructorInv t := by
  refine ⟨hinv, heq ▸ h.loop, ?_, ?_, ?_, ?_⟩
  · exact fun hin => absurd hin (by rw [howner]; simp)
  · exact fun hfinished => heq ▸ h.finished (hfunc hfinished)
  · rintro hquitting
    rw [hquitting] at howner
    cases howner
  · rintro hjoining
    rw [hjoining] at howner
    cases howner

lemma testLoop_outside : s.testLoop.eventLoop = s.eventLoop ∧
    s.testLoop.threadFunc = s.threadFunc ∧ s.testLoop.owner.inDestructor = false := by
  unfold testLoop
  split <;> exact ⟨rfl, rfl, rfl⟩

lemma step_destructorInv (h : DestructorInv s) (hstep : step s e = some t) : DestructorInv t := by
  have hinv := step_inv h.inv hstep
  have hloop := step_loopInv h.loop hstep
  cases e with
  | start created =>
    simp only [step, Option.ite_none_right_eq_some, Option.some.injEq] at hstep
    obtain ⟨-, rfl⟩ := hstep
    refine h.outside hinv rfl ?_ rfl
    cases created <;> simp
  | test =>
    simp only [step, Option.ite_none_right_eq_some, Option.some.injEq] at hstep
    obtain ⟨-, rfl⟩ := hstep
    obtain ⟨heq, hfunc, howner⟩ := testLoop_outside (s := s)
    exact h.outside hinv heq (fun hfinished => hfunc ▸ hfinished) howner
  | resume =>
    simp only [step, Option.ite_none_right_eq_some, Option.some.injEq] at hstep
    obtain ⟨-, rfl⟩ := hstep
    obtain ⟨heq, hfunc, howner⟩ := testLoop_outside (s := { s with cond := s.cond.resume 1 })
    exact h.outside hinv heq (fun hfinished => hfunc.symm.trans hfinished) howner
  | wakeUp =>
    simp only [step, Option.ite_none_right_eq_some, Option.some.injEq] at hstep
    obtain ⟨-, rfl⟩ := hstep
    exact h.of_owner hinv hloop rfl rfl (Or.inl rfl)
  | publish reached =>
    simp only [step, Option.ite_none_right_eq_some, Option.some.injEq] at hstep
    obtain ⟨⟨hentered, -⟩, rfl⟩ := hstep
    refine ⟨hinv, hloop, h.told, by simp, ?_, h.woken⟩
    intro hquitting
    rcases h.quitting hquitting with hfinished | hmem
    · rw [hentered] at hfinished
      cases hfinished
    · exact Or.inr hmem
  | loopStep d =>
    simp only [step, Option.ite_none_right_eq_some, Option.map_eq_some_iff] at hstep
    obtain ⟨⟨hlooping, hcaller⟩, l, hl, rfl⟩ := hstep
    refine h.of_owner hinv hloop rfl rfl (Or.inr ⟨d, by simp [hlooping], hl, ?_⟩)
    rintro - rfl
    simp [caller, EventLoop.Event.ofLoop] at hcaller
  | use d =>
    simp only [step, Option.ite_none_right_eq_some] at hstep
    obtain ⟨⟨-, -, -, hone⟩, htouch⟩ := hstep
    rcases touch_eq_some htouch with ⟨rfl, -⟩ | ⟨l, hlive, hl, rfl⟩
    · exact h.of_owner hinv hloop rfl rfl (Or.inl rfl)
    · refine h.of_owner hinv hloop rfl rfl (Or.inr ⟨d, hlive, hl, ?_⟩)
      rintro hquitting rfl
      rw [hone rfl] at hquitting
      cases hquitting
  | finish =>
    simp only [step, Option.ite_none_right_eq_some, Option.some.injEq] at hstep
    obtain ⟨⟨-, hreturned⟩, rfl⟩ := hstep
    exact ⟨hinv, hloop, h.told, fun _ => hreturned, fun _ => Or.inl rfl, h.woken⟩
  | quit =>
    simp only [step, Option.ite_none_right_eq_some] at hstep
    obtain ⟨-, htouch⟩ := hstep
    rcases touch_eq_some htouch with ⟨rfl, hfinished⟩ | ⟨l, hlive, hl, rfl⟩
    · have hreturned := h.finished hfinished
      exact ⟨hinv, hloop, fun _ => h.loop.told hreturned, h.finished, fun _ => Or.inl hfinished,
        by simp⟩
    · have hmem : l.quit = true ∧ 1 ∈ l.quitters := by
        simp only [EventLoop.step, one_ne_zero, ne_eq, not_false_eq_true, if_true,
          Option.some.injEq] at hl
        subst hl
        exact ⟨rfl, by simp⟩
      exact ⟨hinv, hloop, fun _ => hmem.1, fun hfinished => absurd hfinished hlive,
        fun _ => Or.inr hmem.2, by simp⟩
  | quitWakeup =>
    simp only [step, Option.ite_none_right_eq_some] at hstep
    obtain ⟨hquitting, htouch⟩ := hstep
    have htold := h.told (by rw [hquitting]; rfl)
    rcases touch_eq_some htouch with ⟨rfl, hfinished⟩ | ⟨l, hlive, hl, rfl⟩
    · refine ⟨hinv, hloop, fun _ => htold, h.finished, by simp, ?_⟩
      intro _ hpolling
      have hreturned := h.finished hfinished
      rw [hreturned] at hpolling
      cases hpolling
    · refine ⟨hinv, hloop, fun _ => quit_step htold hl,
        fun hfinished => absurd hfinished hlive, by simp, ?_⟩
      intro _ _
      simp only [EventLoop.step, Option.ite_none_right_eq_some, Option.some.injEq] at hl
      obtain ⟨-, rfl⟩ := hl
      exact EventLoop.awake_wakeup s.eventLoop
  | join =>
    simp only [step, Option.ite_none_right_eq_some, Option.some.injEq] at hstep
    obtain ⟨⟨hjoining, -⟩, rfl⟩ := hstep
    exact ⟨hinv, hloop, fun _ => h.told (by rw [hjoining]; rfl), h.finished, by simp, by simp⟩

lemma destructorInv_initial : DestructorInv initial := by
  refine ⟨inv_initial, loopInv_initial, ?_, ?_, ?_, ?_⟩ <;>
    simp [initial, Owner.inDestructor, EventLoop.initial]

/-- Once told to quit the loop polls no more than once and has finitely many steps to go. -/
lemma step_left (hquit : s.eventLoop.quit = true) (hstep : step s e = some t) :
    t.eventLoop.quit = true ∧
      (if e.isPoll then 1 else 0) + t.eventLoop.pollsLeft ≤ s.eventLoop.pollsLeft + 0 ∧
      (if e.ofLoop then 1 else 0) + t.eventLoop.stepsLeft ≤ s.eventLoop.stepsLeft + e.work := by
  cases step_onLoop hstep with
  | none he heq =>
    have hkind : e.isPoll = false ∧ e.ofLoop = false := by
      cases e with
      | loopStep d => exact absurd rfl (he d)
      | _ => exact ⟨rfl, rfl⟩
    rw [heq, hkind.1, hkind.2]
    refine ⟨hquit, ?_, ?_⟩ <;> simp
  | loopStep d he _ _ hl =>
    subst he
    obtain ⟨hquit', hpolls⟩ := EventLoop.step_pollsLeft hquit hl
    exact ⟨hquit', hpolls, (EventLoop.step_stepsLeft hquit hl).2⟩
  | call d he hcaller _ hl =>
    have hd : d.isPoll = false ∧ d.ofLoop = false := by
      cases d <;> simp [caller, EventLoop.Event.isPoll, EventLoop.Event.ofLoop] at hcaller ⊢
    obtain ⟨hquit', hpolls⟩ := EventLoop.step_pollsLeft hquit hl
    have hsteps := (EventLoop.step_stepsLeft hquit hl).2
    rw [hd.1] at hpolls
    rw [hd.2] at hsteps
    rcases he with rfl | ⟨rfl, rfl⟩ | ⟨rfl, rfl⟩ <;> exact ⟨hquit', hpolls, hsteps⟩

/-- An owner in the destructor stays there. -/
lemma step_inDestructor (h : Inv s) (hin : s.owner.inDestructor = true)
    (hstep : step s e = some t) : t.owner.inDestructor = true := by
  have howner : s.owner ≠ .constructed ∧ s.owner ≠ .starting ∧ s.owner ≠ .waiting := by
    refine ⟨?_, ?_, ?_⟩ <;> intro heq <;> rw [heq] at hin <;> cases hin
  have htouch : ∀ {s : EventLoopThread} {d}, touch s d = some t → t.owner = s.owner := by
    intro s d h
    rcases touch_eq_some h with ⟨rfl, -⟩ | ⟨l, -, -, rfl⟩ <;> rfl
  cases e with
  | start created =>
    simp only [step, Option.ite_none_right_eq_some] at hstep
    exact absurd hstep.1 howner.1
  | test =>
    simp only [step, Option.ite_none_right_eq_some] at hstep
    exact absurd hstep.1 howner.2.1
  | resume =>
    simp only [step, Option.ite_none_right_eq_some] at hstep
    rcases h.queues with ⟨-, hsignalled, hspurious⟩ | ⟨hwaiting, -⟩
    · simp [hsignalled, hspurious] at hstep
    · exact absurd hwaiting howner.2.2
  | wakeUp | publish _ | finish =>
    simp only [step, Option.ite_none_right_eq_some, Option.some.injEq] at hstep
    obtain ⟨-, rfl⟩ := hstep
    exact hin
  | loopStep d =>
    simp only [step, Option.ite_none_right_eq_some, Option.map_eq_some_iff] at hstep
    obtain ⟨-, l, -, rfl⟩ := hstep
    exact hin
  | use d =>
    simp only [step, Option.ite_none_right_eq_some] at hstep
    rw [htouch hstep.2]
    exact hin
  | quit | quitWakeup =>
    simp only [step, Option.ite_none_right_eq_some] at hstep
    rw [htouch hstep.2]
    rfl
  | join =>
    simp only [step, Option.ite_none_right_eq_some, Option.some.injEq] at hstep
    obtain ⟨-, rfl⟩ := hstep
    rfl

/-- The destructor is never left to wait for good. -/
lemma exists_destructor_step (h : DestructorInv s) (hin : s.owner.inDestructor = true)
    (hdestructed : s.owner ≠ .destructed) : ∃ e t, step s e = some t ∧
      (e = .quitWakeup ∨ e = .finish ∨ e = .join ∨
        e.ofLoop = true ∧ (e.isPoll = true → 0 < s.eventLoop.eventfd)) := by
  have hback : s.owner.hasPointer = true := by
    cases howner : s.owner <;> rw [howner] at hin <;> first | rfl | cases hin
  cases howner : s.owner with
  | constructed | starting | waiting | returned =>
    rw [howner] at hin
    cases hin
  | destructed => exact absurd howner hdestructed
  | quitting =>
    have htouch : ∃ t, touch { s with owner := .joining } (.quitWakeup 1) = some t := by
      rcases h.quitting howner with hfinished | hmem
      · exact ⟨_, if_pos hfinished⟩
      · unfold touch
        split
        · exact ⟨_, rfl⟩
        · simp only [EventLoop.step, hmem, if_true, Option.map_some]
          exact ⟨_, rfl⟩
    obtain ⟨t, ht⟩ := htouch
    exact ⟨.quitWakeup, t, (if_pos howner).trans ht, Or.inl rfl⟩
  | joining =>
    rcases h.inv.pointer.mp (h.inv.returned hback) with hlooping | hfinished
    · by_cases hreturned : s.eventLoop.phase = .returned
      · exact ⟨.finish, _, if_pos ⟨hlooping, hreturned⟩, Or.inr (Or.inl rfl)⟩
      · obtain ⟨d, l, hl, hd, hpoll⟩ := EventLoop.exists_ofLoop hreturned (h.woken howner)
        refine ⟨.loopStep d, { s with eventLoop := l }, ?_, Or.inr (Or.inr (Or.inr ⟨hd, hpoll⟩))⟩
        rw [step, if_pos ⟨hlooping, Or.inl hd⟩, hl, Option.map_some]
    · exact ⟨.join, _, if_pos ⟨howner, hfinished⟩, Or.inr (Or.inr (Or.inl rfl))⟩

end Destructor

section Lifetime

variable {s t : EventLoopThread} {e : Event}

/-- The users are done with the loop before the owner enters the destructor, and leave it to the
destructor to quit the loop. -/
def UsersDone (s : EventLoopThread) : Event → Prop
  | .use d => s.owner = .returned ∧ d.isQuit = false
  | .loopStep d => d.isQuit = false
  | _ => True

instance (s : EventLoopThread) : (e : Event) → Decidable (UsersDone s e)
  | .use _ => inferInstanceAs (Decidable (_ ∧ _))
  | .loopStep _ => inferInstanceAs (Decidable (_ = _))
  | .start _ | .test | .wakeUp | .resume | .publish _ | .finish | .quit | .quitWakeup | .join =>
    isTrue trivial

/-- The destructor writes to the eventfd of a loop that is still there. -/
def WakesLive (past : List Event) (e : Event) : Prop := e = .quitWakeup → .finish ∉ past

structure LifetimeInv (past : List Event) (s : EventLoopThread) : Prop where
  inv : DestructorInv s
  quit : s.eventLoop.quit = true → s.owner.inDestructor = true
  finished : s.threadFunc = .finished ↔ .finish ∈ past
  live : s.touchedDead = false ↔ Ordered WakesLive past

/-- Users and the owner outside the destructor find the loop alive. -/
lemma LifetimeInv.alive {past : List Event} (h : LifetimeInv past s)
    (howner : s.owner = .returned) : s.threadFunc ≠ .finished := by
  intro hfinished
  have hin := h.quit (h.inv.loop.told (h.inv.finished hfinished))
  rw [howner] at hin
  cases hin

lemma step_quit_inDestructor (hinv : DestructorInv s)
    (h : s.eventLoop.quit = true → s.owner.inDestructor = true) (hdone : UsersDone s e)
    (hstep : step s e = some t) : t.eventLoop.quit = true → t.owner.inDestructor = true := by
  intro hquit
  by_cases hin : s.owner.inDestructor = true
  · exact step_inDestructor hinv.inv hin hstep
  · have hnot : s.eventLoop.quit = false := by
      rw [← Bool.not_eq_true]
      exact fun hbefore => hin (h hbefore)
    cases step_onLoop hstep with
    | none _ heq =>
      rw [heq, hnot] at hquit
      cases hquit
    | loopStep d he _ _ hl =>
      subst he
      rw [EventLoop.step_quit_eq hl, hnot, show d.isQuit = false from hdone] at hquit
      cases hquit
    | call d he _ _ hl =>
      rcases he with rfl | ⟨rfl, rfl⟩ | ⟨rfl, rfl⟩
      · rw [EventLoop.step_quit_eq hl, hnot, hdone.2] at hquit
        cases hquit
      · simp only [step, Option.ite_none_right_eq_some] at hstep
        rcases touch_eq_some hstep.2 with ⟨rfl, -⟩ | ⟨l, -, -, rfl⟩ <;> rfl
      · rw [EventLoop.step_quit_eq hl, hnot] at hquit
        cases hquit

lemma finished_step (h : Inv s) (hstep : step s e = some t) :
    t.threadFunc = .finished ↔ s.threadFunc = .finished ∨ e = .finish := by
  have htouch : ∀ {s : EventLoopThread} {d}, touch s d = some t → t.threadFunc = s.threadFunc := by
    intro s d h
    rcases touch_eq_some h with ⟨rfl, -⟩ | ⟨l, -, -, rfl⟩ <;> rfl
  cases e with
  | start created =>
    simp only [step, Option.ite_none_right_eq_some, Option.some.injEq] at hstep
    obtain ⟨howner, rfl⟩ := hstep
    cases created <;> simp [h.absent howner]
  | test =>
    simp only [step, Option.ite_none_right_eq_some, Option.some.injEq] at hstep
    obtain ⟨-, rfl⟩ := hstep
    rw [testLoop_outside.2.1]
    simp
  | resume =>
    simp only [step, Option.ite_none_right_eq_some, Option.some.injEq] at hstep
    obtain ⟨-, rfl⟩ := hstep
    rw [testLoop_outside.2.1]
    simp
  | publish reached =>
    simp only [step, Option.ite_none_right_eq_some, Option.some.injEq] at hstep
    obtain ⟨⟨hentered, -⟩, rfl⟩ := hstep
    simp [hentered]
  | wakeUp | join =>
    simp only [step, Option.ite_none_right_eq_some, Option.some.injEq] at hstep
    obtain ⟨-, rfl⟩ := hstep
    simp
  | finish =>
    simp only [step, Option.ite_none_right_eq_some, Option.some.injEq] at hstep
    obtain ⟨-, rfl⟩ := hstep
    simp
  | loopStep d =>
    simp only [step, Option.ite_none_right_eq_some, Option.map_eq_some_iff] at hstep
    obtain ⟨-, l, -, rfl⟩ := hstep
    simp
  | use d | quit | quitWakeup =>
    simp only [step, Option.ite_none_right_eq_some] at hstep
    rw [htouch hstep.2]
    simp

/-- Only the wake-up of the destructor finds the loop destructed. -/
lemma touchedDead_step {past : List Event} (h : LifetimeInv past s) (hdone : UsersDone s e)
    (hstep : step s e = some t) :
    t.touchedDead = true ↔
      s.touchedDead = true ∨ e = .quitWakeup ∧ s.threadFunc = .finished := by
  have halive : ∀ {s : EventLoopThread} {d}, s.threadFunc ≠ .finished → touch s d = some t →
      t.touchedDead = s.touchedDead := by
    intro s d hlive htouch
    rcases touch_eq_some htouch with ⟨-, hfinished⟩ | ⟨l, -, -, rfl⟩
    · exact absurd hfinished hlive
    · rfl
  cases e with
  | start _ | wakeUp | publish _ | finish | join =>
    simp only [step, Option.ite_none_right_eq_some, Option.some.injEq] at hstep
    obtain ⟨-, rfl⟩ := hstep
    simp
  | test | resume =>
    simp only [step, Option.ite_none_right_eq_some, Option.some.injEq] at hstep
    obtain ⟨-, rfl⟩ := hstep
    unfold testLoop
    split <;> simp
  | loopStep d =>
    simp only [step, Option.ite_none_right_eq_some, Option.map_eq_some_iff] at hstep
    obtain ⟨-, l, -, rfl⟩ := hstep
    simp
  | use d =>
    simp only [step, Option.ite_none_right_eq_some] at hstep
    rw [halive (h.alive hdone.1) hstep.2]
    simp
  | quit =>
    simp only [step, Option.ite_none_right_eq_some] at hstep
    have hlive := h.alive hstep.1.1
    rw [halive (s := { s with owner := .quitting }) hlive hstep.2]
    simp
  | quitWakeup =>
    simp only [step, Option.ite_none_right_eq_some] at hstep
    rcases touch_eq_some hstep.2 with ⟨rfl, hfinished⟩ | ⟨l, hlive, -, rfl⟩
    · exact iff_of_true rfl (Or.inr ⟨rfl, hfinished⟩)
    · simp only [true_and]
      exact ⟨Or.inl, fun hor => hor.resolve_right hlive⟩

lemma lifetimeInv_step {past : List Event} (h : LifetimeInv past s) (hdone : UsersDone s e)
    (hstep : step s e = some t) : LifetimeInv (past ++ [e]) t := by
  refine ⟨step_destructorInv h.inv hstep, step_quit_inDestructor h.inv h.quit hdone hstep, ?_, ?_⟩
  · rw [finished_step h.inv.inv hstep, h.finished, List.mem_append, List.mem_singleton, eq_comm]
  · rw [ordered_concat, ← h.live, ← not_iff_not, Bool.not_eq_false, touchedDead_step h hdone hstep,
      h.finished, WakesLive, not_and_or, Bool.not_eq_false, Classical.not_imp, not_not]

end Lifetime

/-- Where the users are done before the owner enters the destructor, and leave it to the destructor
to quit the loop, the loop is used after its end exactly where its thread has finished between the
assignment of the destructor's `quit` and its write to the eventfd. -/
theorem dead_loop_touched_iff {es : List Event} {s : EventLoopThread}
    (hguard : Guarded step UsersDone initial es) (hrun : run step initial es = some s) :
    s.touchedDead = false ↔ Ordered WakesLive es := by
  have h0 : LifetimeInv [] initial := by
    refine ⟨destructorInv_initial, ?_, ?_, iff_of_true rfl (ordered_nil _)⟩ <;>
      simp [initial, EventLoop.initial]
  have h := run_history (fun _ _ _ _ h hdone hstep => lifetimeInv_step h hdone hstep) h0 hguard hrun
  simpa using h.live

/-- The loop's thread comes to the test of `_quit` after the assignment and ends at once. -/
theorem dead_loop_touched_iff_race : ¬ Ordered WakesLive
    [.start true, .publish [], .test, .loopStep .loop, .loopStep (.poll []),
      .loopStep .swapFunctors, .quit, .loopStep .doneFunctors, .finish, .quitWakeup] := by
  obtain ⟨s, hs, htouched⟩ := Option.map_eq_some_iff.mp (show (run step initial
    [.start true, .publish [], .test, .loopStep .loop, .loopStep (.poll []),
      .loopStep .swapFunctors, .quit, .loopStep .doneFunctors, .finish, .quitWakeup]).map
      EventLoopThread.touchedDead = some true by decide)
  rw [← dead_loop_touched_iff (by decide) hs, htouched]
  decide

end EventLoopThread

end RpcMuduo
