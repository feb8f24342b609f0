import RpcMuduo.TimerCancel

/-!
# Stale timer ids

`cancelInLoop` follows the pointer of the id and never compares the sequence number. When the
timer of the id is gone, the pointer dangles, or a later timer lives where it points.
-/
namespace RpcMuduo.TimerQueue
open Run

/-- The callback of the id's timer, a one-shot one, has been started, or the timer has been
cancelled. -/
def Stale (s : TimerQueue) (timerId : TimerId) : Prop :=
  .cancelled timerId.sequence ∈ s.log ∨
    ∃ timer, .started timer ∈ s.log ∧ timer.sequence = timerId.sequence ∧ timer.isRepeat = false

/-- From `s` to `t` an id was cancelled: the set loses at most the timer of the id, and nothing
if the id is stale, and the `Timer` whose stamp is read lives. -/
structure Harmless (s t : TimerQueue) (timerId : TimerId) : Prop where
  own : ∀ e ∈ s.pTimers, e ∉ t.pTimers →
    ∃ timer, s.heap e.address = some timer ∧ timer.sequence = timerId.sequence
  stale : s.Stale timerId → t.pTimers = s.pTimers
  read : s.heap timerId.timer ≠ none

def CancelsHarmlessly (s : TimerQueue) (e : Event) : Prop :=
  ∀ timerId t, s.cancelling e = some timerId → step s e = some t → Harmless s t timerId

/-- A `Timer` lives at the address of the id; if it is in the set, it is the id's own and has not
been cancelled before. -/
def Safe (s : TimerQueue) (timerId : TimerId) : Prop :=
  ∃ timer, s.heap timerId.timer = some timer ∧ (entry timer.stamp timerId.timer ∈ s.pTimers →
    timer.sequence = timerId.sequence ∧ .cancelled timerId.sequence ∉ s.log)

def CancelsSafely (s : TimerQueue) (e : Event) : Prop :=
  ∀ timerId, s.cancelling e = some timerId → s.Safe timerId

structure StaleInv (s : TimerQueue) : Prop where
  owned : Owned 0 s
  named : Named s
  once : ∀ timer, .started timer ∈ s.log → timer.isRepeat = false → Spent s timer.sequence

section Invariant

variable {s t : TimerQueue}

lemma staleInv_initial : StaleInv initial where
  owned := owned_initial
  named := named_initial
  once := by simp [initial]

lemma staleInv_step (h : StaleInv s) {e : Event} (hstep : step s e = some t) : StaleInv t where
  owned := owned_step h.owned hstep
  named := named_heapStep h.named (heapStep_step hstep)
  once := by
    intro timer hmem honce
    have hold : ∀ log, t.log = s.log ++ log → .started timer ∉ log → Spent t timer.sequence := by
      intro log hlog hnot
      rw [hlog, List.mem_append] at hmem
      exact spent_step (h.once timer (hmem.resolve_right hnot) honce) hstep
    rcases log_step hstep with ⟨started, e, expired, timer', hphase, htimer', rfl⟩ |
      ⟨timerId, -, -, hlog⟩ | hlog
    · by_cases htimer : timer = timer'
      · subst htimer
        -- a one-shot timer that is started stays in the batch until it is deleted
        refine ⟨h.named.fresh e.address timer htimer', ?_⟩
        intro address timer'' htimer'' hq
        obtain rfl := h.named.distinct address e.address timer'' timer htimer'' htimer' hq
        obtain rfl := Option.some.inj (htimer'.symm.trans htimer'')
        exact ⟨honce, by simp [call, Phase.fired]⟩
      · exact hold [.started timer'] rfl (by simpa using htimer)
    · exact hold [.cancelled timerId.sequence] hlog (by simp)
    · exact hold [] (by simpa using hlog) (by simp)

lemma pTimers_cancelling {e : Event} {timerId : TimerId} (h : s.cancelling e = some timerId)
    {timer : Timer} (htimer : s.heap timerId.timer = some timer) (hstep : step s e = some t) :
    t.pTimers = if entry timer.stamp timerId.timer ∈ s.pTimers
      then s.pTimers.erase (entry timer.stamp timerId.timer) else s.pTimers := by
  obtain ⟨functors, garbage, rfl⟩ := step_cancelling h hstep
  rw [pTimers_cancelInLoop, getStamp_live (s := { s with pendingFunctors := functors }) htimer]

/-- One cancellation is harmless exactly when the id is safe. -/
lemma harmless_iff_safe (h : StaleInv s) {e : Event} {timerId : TimerId}
    (hcancel : s.cancelling e = some timerId) (hstep : step s e = some t) :
    Harmless s t timerId ↔ s.Safe timerId := by
  constructor
  · intro hharmless
    obtain ⟨timer, htimer⟩ := Option.ne_none_iff_exists'.mp hharmless.read
    have hset := pTimers_cancelling hcancel htimer hstep
    refine ⟨timer, htimer, ?_⟩
    intro hmem
    rw [if_pos hmem] at hset
    have hout : entry timer.stamp timerId.timer ∉ t.pTimers := by simp [hset]
    obtain ⟨timer', htimer', hsequence⟩ := hharmless.own _ hmem hout
    obtain rfl := Option.some.inj (htimer.symm.trans htimer')
    refine ⟨hsequence, ?_⟩
    intro hcancelled
    rw [hharmless.stale (Or.inl hcancelled)] at hout
    exact hout hmem
  · rintro ⟨timer, htimer, hsafe⟩
    have hset := pTimers_cancelling hcancel htimer hstep
    refine ⟨?_, ?_, by simp [htimer]⟩
    · intro e' he' hout
      by_cases hmem : entry timer.stamp timerId.timer ∈ s.pTimers
      · rw [hset, if_pos hmem, SortedSet.mem_erase] at hout
        have heq : e' = entry timer.stamp timerId.timer := by
          by_contra hne
          exact hout ⟨hne, he'⟩
        subst heq
        exact ⟨timer, htimer, (hsafe hmem).1⟩
      · rw [hset, if_neg hmem] at hout
        exact absurd he' hout
    · intro hstale
      have hmem : entry timer.stamp timerId.timer ∉ s.pTimers := by
        intro hmem
        obtain ⟨hsequence, hcancelled⟩ := hsafe hmem
        obtain ⟨timer', hstarted, hsequence', honce⟩ := hstale.resolve_left hcancelled
        exact spent_not_mem_set h.owned (h.once timer' hstarted honce) hmem htimer
          (hsequence.trans hsequence'.symm)
      rw [hset, if_neg hmem]

end Invariant

/-- The first timer fires and is deleted, a later one gets its address, and the old id is
cancelled. -/
def reuse : List Event :=
  [.addTimer 16 100 0 50, .expire, .handleRead 100, .timeout, .beginReset, .resetOne 200,
    .rearm 200, .addTimer 16 500 0 300]

lemma reuse_isSome : (run step initial reuse).isSome = true := by decide +kernel

lemma reuse_run : ∃ s, run step initial reuse = some s ∧
    (step s (.cancelTimer ⟨16, 1⟩ 0)).isSome = true ∧ ¬ s.Safe ⟨16, 1⟩ := by
  refine ⟨_, (Option.some_get reuse_isSome).symm, by decide +kernel, ?_⟩
  rintro ⟨timer, htimer, hsafe⟩
  have hlater : ((run step initial reuse).get reuse_isSome).heap 16 = some ⟨500, 0, 2⟩ := by
    decide +kernel
  obtain rfl := Option.some.inj (hlater.symm.trans htimer)
  have hmem : entry 500 16 ∈ ((run step initial reuse).get reuse_isSome).pTimers := by
    decide +kernel
  exact absurd (hsafe hmem).1 (by decide)

/-- The cancellations of a run are all harmless exactly when they are all of ids that are safe. -/
theorem stale_id_harmless_iff (es : List Event) :
    Guarded step CancelsHarmlessly initial es ↔ Guarded step CancelsSafely initial es := by
  refine guarded_congr (P := StaleInv) ?_ staleInv_initial es
  intro s e t hs hstep
  refine ⟨?_, staleInv_step hs hstep⟩
  constructor
  · intro h timerId hcancel
    exact (harmless_iff_safe hs hcancel hstep).mp (h timerId t hcancel hstep)
  · intro h timerId t' hcancel hstep'
    exact (harmless_iff_safe hs hcancel hstep').mpr (h timerId hcancel)

theorem stale_id_cancels_another :
    ¬ Guarded step CancelsHarmlessly initial (reuse ++ [.cancelTimer ⟨16, 1⟩ 0]) := by
  intro h
  obtain ⟨s, hrun, hsome, hunsafe⟩ := reuse_run
  obtain ⟨t, hstep⟩ := Option.isSome_iff_exists.mp hsome
  have hinv : StaleInv s :=
    run_invariant (fun _ _ _ hs hstep => staleInv_step hs hstep) staleInv_initial hrun
  have hharmless := guarded_concat h hrun hstep ⟨16, 1⟩ t rfl hstep
  exact hunsafe ((harmless_iff_safe hinv rfl hstep).mp hharmless)

end RpcMuduo.TimerQueue
