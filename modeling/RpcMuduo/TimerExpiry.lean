import RpcMuduo.TimerBatch

/-!
# Timers that expire

What one `handleRead` fires and puts back, and what follows for whole runs. Nothing is cancelled
here.
-/
namespace RpcMuduo.TimerQueue
open Run

/-- A repeating timer is in the set once, under the stamp that it was restarted with. -/
def PutBack (t : TimerQueue) (timer : Timer) (clock : ℤ) : Prop :=
  timer.isRepeat = true → ∃ address, t.heap address = some (timer.restart clock) ∧
    entry (timer.restart clock).stamp address ∈ t.pTimers ∧
    ∀ e ∈ t.pTimers, ∀ timer', t.heap e.address = some timer' →
      timer'.sequence = timer.sequence → e = entry (timer.restart clock).stamp address

/-- What `handleRead` does between `s` and `t` with the events `batch` in it: `timers` are fired,
and these are the timers due at `now`. -/
structure Expiry (s : TimerQueue) (now : ℤ) (batch : List Event) (t : TimerQueue)
    (timers : List Timer) : Prop where
  fired : t.log = s.log ++ timers.map .started
  due : ∀ timer, timer ∈ timers ↔
    ∃ e ∈ s.pTimers, s.heap e.address = some timer ∧ timer.stamp ≤ now
  once : (timers.map Timer.sequence).Nodup
  sorted : timers.Pairwise fun a b => a.stamp ≤ b.stamp
  oneShot : ∀ timer ∈ timers, timer.isRepeat = false → ∀ e ∈ t.pTimers, ∀ timer',
    t.heap e.address = some timer' → timer'.sequence ≠ timer.sequence
  repeating : List.Forall₂ (PutBack t) timers (batch.filterMap Event.resetAt)
  notDue : ∀ e ∈ s.pTimers, now < e.stamp → e ∈ t.pTimers ∧ t.heap e.address = s.heap e.address
  added : ∀ address when interval clock, .addTimer address when interval clock ∈ batch →
    ∃ q, entry when address ∈ t.pTimers ∧ t.heap address = some ⟨when, interval, q⟩ ∧
      q ∉ timers.map Timer.sequence
  key : ∀ e ∈ t.pTimers, ∃ timer, t.heap e.address = some timer ∧ timer.stamp = e.stamp

/-- A one-shot timer is started only once. -/
def FiredOnce (log : List Called) : Called → Prop
  | .started timer => timer.isRepeat = false →
    ∀ timer', .started timer' ∈ log → timer'.sequence ≠ timer.sequence
  | .cancelled _ => True

/-- The next timer to be started has a stamp that the last `handleRead` found passed. -/
def NotEarly (es : List Event) (s : TimerQueue) : Prop :=
  ∀ t, step s .timeout = some t → ∃ now timer, (es.filterMap Event.readAt).getLast? = some now ∧
    t.log = s.log ++ [.started timer] ∧ timer.stamp ≤ now

/-- A timer that was added still has its place, or it was one-shot and has been started. -/
def NoneLost (s : TimerQueue) : Prop :=
  ∀ timerId ∈ s.issued,
    (∃ timer, s.heap timerId.timer = some timer ∧ timer.sequence = timerId.sequence ∧
      timerId.timer ∈ s.holders) ∨
    ∃ timer, .started timer ∈ s.log ∧ timer.sequence = timerId.sequence ∧ timer.isRepeat = false

/-- What the history says of a timer that was started, and what holds of every run. -/
structure Reached (s : TimerQueue) : Prop where
  owned : Owned 0 s
  named : Named s
  bounded : ∀ address, s.heap address ≠ none → address < UINTPTR_MAX
  known : ∀ timer, .started timer ∈ s.log → timer.sequence ≤ s.sequeue ∧
    ∀ address timer', s.heap address = some timer' → timer'.sequence = timer.sequence →
      timer'.isRepeat = timer.isRepeat
  spent : ∀ timer, .started timer ∈ s.log → timer.isRepeat = false → Spent s timer.sequence
  once : Ordered FiredOnce s.log

section Reached

variable {s t : TimerQueue}

lemma reached_initial : Reached initial where
  owned := owned_initial
  named := named_initial
  bounded := by simp [initial]
  known := by simp [initial]
  spent := by simp [initial]
  once := ordered_nil _

lemma bounded_step (h : Reached s) {ev : Event} (hstep : step s ev = some t) (address : ℕ)
    (hlive : t.heap address ≠ none) : address < UINTPTR_MAX := by
  rcases heap_step hstep address with hsame | ⟨-, hbound⟩ |
    ⟨next, expired, hphase, haddress, -⟩ | ⟨-, hnone⟩
  · exact h.bounded address (hsame ▸ hlive)
  · exact hbound
  · obtain ⟨timer, htimer⟩ := live_of_batch h.owned (e := next) (by simp [hphase, Phase.batch])
    exact h.bounded address (by simp [← haddress, htimer])
  · exact absurd hnone hlive

/-- A step starts one timer, the next of the batch, or none. -/
lemma started_step {ev : Event} (hstep : step s ev = some t) {timer : Timer}
    (h : .started timer ∈ t.log) : .started timer ∈ s.log ∨ ∃ started e expired,
      s.phase = .firing started (e :: expired) ∧ s.heap e.address = some timer ∧
      t = { s with phase := .firing (started ++ [e]) expired }.call (.started timer) := by
  rcases log_step hstep with ⟨started, e, expired, timer', hphase, htimer, rfl⟩ |
    ⟨timerId, -, -, hlog⟩ | hlog
  · rcases List.mem_append.mp h with h | h
    · exact Or.inl h
    · obtain rfl := Called.started.inj (List.mem_singleton.mp h)
      exact Or.inr ⟨started, e, expired, hphase, htimer, rfl⟩
  · rw [hlog, List.mem_append, List.mem_singleton] at h
    exact Or.inl (h.resolve_right (by simp))
  · exact Or.inl (hlog ▸ h)

lemma known_step (h : Reached s) {ev : Event} (hstep : step s ev = some t) {timer : Timer}
    (hstarted : .started timer ∈ t.log) : timer.sequence ≤ t.sequeue ∧
      ∀ address timer', t.heap address = some timer' → timer'.sequence = timer.sequence →
        timer'.isRepeat = timer.isRepeat := by
  rcases started_step hstep hstarted with hold | ⟨started, e, expired, -, htimer, rfl⟩
  · obtain ⟨hle, hsame⟩ := h.known timer hold
    have hheap := heapStep_step hstep
    obtain ⟨new, hobjects⟩ := hheap.objects
    refine ⟨hle.trans hheap.sequeue, ?_⟩
    intro address timer' htimer' hsequence
    rcases hobjects address timer' htimer' with ⟨timer₀, htimer₀, hsequence₀, hrepeat⟩ | ⟨-, hq, -⟩
    · rw [← hrepeat]
      exact hsame address timer₀ htimer₀ (hsequence₀.trans hsequence)
    · omega
  · refine ⟨h.named.fresh _ timer htimer, ?_⟩
    intro address timer' htimer' hsequence
    obtain rfl := h.named.distinct address e.address timer' timer htimer' htimer hsequence
    rw [Option.some.inj (htimer'.symm.trans htimer)]

lemma spent_started (h : Reached s) {ev : Event} (hstep : step s ev = some t) {timer : Timer}
    (hstarted : .started timer ∈ t.log) (hrepeat : timer.isRepeat = false) :
    Spent t timer.sequence := by
  rcases started_step hstep hstarted with hold | ⟨started, e, expired, -, htimer, rfl⟩
  · exact spent_step (h.spent timer hold hrepeat) hstep
  · refine ⟨h.named.fresh _ timer htimer, ?_⟩
    intro address timer' htimer' hsequence
    obtain rfl := h.named.distinct address e.address timer' timer htimer' htimer hsequence
    rw [Option.some.inj (htimer'.symm.trans htimer)]
    exact ⟨hrepeat, by simp [call, Phase.fired]⟩

lemma once_step (h : Reached s) {ev : Event} (hstep : step s ev = some t) :
    Ordered FiredOnce t.log := by
  rcases log_step hstep with ⟨started, e, expired, timer, hphase, htimer, rfl⟩ |
    ⟨timerId, -, -, hlog⟩ | hlog
  · refine ordered_concat.mpr ⟨h.once, ?_⟩
    intro hrepeat timer' hstarted hsequence
    have hsame := (h.known timer' hstarted).2 e.address timer htimer hsequence.symm
    have hspent := h.spent timer' hstarted (hsame ▸ hrepeat)
    exact spent_not_next h.owned hspent hphase htimer hsequence.symm
  · rw [hlog]
    exact ordered_concat.mpr ⟨h.once, trivial⟩
  · rw [hlog]
    exact h.once

lemma reached_step (h : Reached s) {ev : Event} (hstep : step s ev = some t) : Reached t where
  owned := owned_step h.owned hstep
  named := named_heapStep h.named (heapStep_step hstep)
  bounded := bounded_step h hstep
  known := fun _ hstarted => known_step h hstep hstarted
  spent := fun _ hstarted hrepeat => spent_started h hstep hstarted hrepeat
  once := once_step h hstep

lemma reached_run {es : List Event} (h : Reached s) (hrun : run step s es = some t) : Reached t :=
  run_invariant (fun _ _ _ hs hstep => reached_step hs hstep) h hrun

end Reached

section Expiry

variable {s₀ s t : TimerQueue} {now : ℤ} {es : List Event}

lemma mem_due (hs : Reached s₀) {e : Entry} :
    e ∈ s₀.due now ↔ e ∈ s₀.pTimers ∧ e.stamp ≤ now := by
  have hbelow : e ∈ s₀.due now ↔ e ∈ s₀.pTimers ∧ e < entry now UINTPTR_MAX :=
    SortedSet.mem_below
  rw [hbelow]
  refine and_congr_right fun he => lt_sentry_iff (hs.bounded e.address ?_)
  obtain ⟨timer, htimer⟩ := live_of_set hs.owned he
  simp [htimer]

lemma mem_objects {entries : List Entry} {timer : Timer} :
    timer ∈ s₀.objects entries ↔ ∃ e ∈ entries, s₀.heap e.address = some timer :=
  List.mem_filterMap

/-- The timers due are those of the entries due, whose stamps they have. -/
lemma mem_objects_due (hs : Reached s₀) {timer : Timer} : timer ∈ s₀.objects (s₀.due now) ↔
    ∃ e ∈ s₀.pTimers, s₀.heap e.address = some timer ∧ timer.stamp ≤ now := by
  rw [mem_objects]
  refine exists_congr fun e => ?_
  rw [mem_due hs]
  constructor
  · rintro ⟨⟨he, hle⟩, htimer⟩
    exact ⟨he, htimer, (hs.owned.key e he timer htimer).le.trans hle⟩
  · rintro ⟨he, htimer, hle⟩
    exact ⟨⟨he, (hs.owned.key e he timer htimer).ge.trans hle⟩, htimer⟩

lemma nodup_objects_due (hs : Reached s₀) :
    ((s₀.objects (s₀.due now)).map Timer.sequence).Nodup := by
  have hnodup := hs.owned.nodup
  rw [add_zero, holders, Multiset.nodup_add, Multiset.nodup_add] at hnodup
  have haddresses : (s₀.pTimers.elems.map Entry.address).Nodup :=
    Multiset.coe_nodup.mp hnodup.1.2.1
  have hdue : ((s₀.due now).map Entry.address).Nodup :=
    haddresses.sublist ((List.takeWhile_sublist _).map _)
  rw [List.Nodup, List.pairwise_map, objects, List.pairwise_filterMap]
  rw [List.Nodup, List.pairwise_map] at hdue
  refine hdue.imp ?_
  intro e e' hne timer htimer timer' htimer' hsequence
  exact hne (hs.named.distinct _ _ timer timer' htimer htimer' hsequence)

lemma sorted_objects_due (hs : Reached s₀) :
    (s₀.objects (s₀.due now)).Pairwise fun a b => a.stamp ≤ b.stamp := by
  rw [objects, List.pairwise_filterMap]
  refine (s₀.pTimers.below (entry now UINTPTR_MAX)).sorted.imp_of_mem ?_
  intro e e' he he' hlt timer htimer timer' htimer'
  rw [hs.owned.key e ((mem_due hs).mp he).1 timer htimer,
    hs.owned.key e' ((mem_due hs).mp he').1 timer' htimer']
  exact stamp_mono hlt.le

lemma forall₂_filterMap {α β γ : Type*} {R : α → γ → Prop} {S : β → γ → Prop} {f : α → Option β}
    {l : List α} {l' : List γ} (h : List.Forall₂ R l l')
    (hf : ∀ a ∈ l, ∀ c, R a c → ∃ b, f a = some b ∧ S b c) :
    List.Forall₂ S (l.filterMap f) l' := by
  induction h with
  | nil => exact List.Forall₂.nil
  | @cons a c l l' hac _ ih =>
    obtain ⟨b, hb, hS⟩ := hf a List.mem_cons_self c hac
    rw [List.filterMap_cons_some hb]
    exact List.Forall₂.cons hS (ih fun a' ha' => hf a' (List.mem_cons_of_mem a ha'))

lemma putBack_of_restarted (ht : Reached t) {e : Entry} {timer : Timer} {clock : ℤ}
    (htimer : s₀.heap e.address = some timer) (h : s₀.Restarted t e clock) :
    PutBack t timer clock := by
  intro hrepeat
  obtain ⟨hmem, hheap⟩ := h timer htimer hrepeat
  refine ⟨e.address, hheap, hmem, ?_⟩
  intro e' he' timer' htimer' hsequence
  have haddress := ht.named.distinct e'.address e.address timer' _ htimer' hheap hsequence
  have hstamp := ht.owned.key e' he' timer' htimer'
  rw [haddress, hheap, Option.some.injEq] at htimer'
  rw [← haddress, htimer', hstamp]
  rfl

lemma expiry_of_batch (hs : Reached s₀) (h : Batch s₀ now es s) (ht : Reached t) {clock : ℤ}
    (hstep : step s (.rearm clock) = some t) :
    Expiry s₀ now es t (s₀.objects (s₀.due now)) := by
  obtain ⟨hphase, hidle, hheap, hset, hlog⟩ := rearm_eq hstep
  obtain ⟨hfired, done, hdone, hall⟩ := h.restarting [] hphase
  rw [List.append_nil] at hdone
  subst hdone
  have hlogged : t.log = s₀.log ++ (s₀.objects (s₀.due now)).map .started := hlog.trans hfired
  refine ⟨hlogged, fun _ => mem_objects_due hs, nodup_objects_due hs, sorted_objects_due hs,
    ?_, ?_, ?_, ?_, ?_⟩
  · intro timer htimer hrepeat e he timer' htimer' hsequence
    have hstarted : .started timer ∈ t.log := by
      rw [hlogged]
      exact List.mem_append_right _ (List.mem_map_of_mem htimer)
    obtain ⟨-, hlive⟩ := ht.spent timer hstarted hrepeat
    have hnone := (hlive e.address timer' htimer' hsequence).2
    rw [hidle] at hnone
    cases hnone
  · refine forall₂_filterMap hall ?_
    intro e he clock' hrestarted
    obtain ⟨timer, htimer⟩ := live_of_set hs.owned ((mem_due hs).mp he).1
    refine ⟨timer, htimer, putBack_of_restarted ht htimer ?_⟩
    intro timer' htimer' hrepeat
    rw [hset, hheap]
    exact hrestarted timer' htimer' hrepeat
  · rw [hset, hheap]
    exact h.notDue
  · intro address when interval clock' hmem
    obtain ⟨q, hq, hentry, hobject⟩ := h.added address when interval clock' hmem
    rw [hset, hheap]
    refine ⟨q, hentry, hobject, ?_⟩
    intro hold
    obtain ⟨timer, htimer, rfl⟩ := List.mem_map.mp hold
    obtain ⟨e, -, hlive⟩ := mem_objects.mp htimer
    exact absurd (hs.named.fresh _ timer hlive) (not_le.mpr hq)
  · intro e he
    obtain ⟨timer, htimer⟩ := live_of_set ht.owned he
    exact ⟨timer, htimer, ht.owned.key e he timer htimer⟩

end Expiry

/-- What a run without cancellation keeps: the timers to be started are due, those whose callback
has been started are in the history, and none was lost. -/
structure History (es : List Event) (s : TimerQueue) : Prop where
  reached : Reached s
  due : ∀ started expired, s.phase = .firing started expired →
    ∃ now, (es.filterMap Event.readAt).getLast? = some now ∧
      ∀ e ∈ expired, ∀ timer, s.heap e.address = some timer → timer.stamp ≤ now
  fired : ∀ address ∈ s.phase.fired, ∀ timer, s.heap address = some timer →
    .started timer ∈ s.log
  kept : ∀ timerId ∈ s.issued,
    (∃ timer, s.heap timerId.timer = some timer ∧ timer.sequence = timerId.sequence) ∨
    ∃ timer, .started timer ∈ s.log ∧ timer.sequence = timerId.sequence ∧ timer.isRepeat = false

section History

variable {s t : TimerQueue} {es : List Event}

lemma history_initial : History [] initial where
  reached := reached_initial
  due := by simp [initial]
  fired := by simp [initial, Phase.fired]
  kept := by simp [initial]

lemma started_mono {ev : Event} (hstep : step s ev = some t) {timer : Timer}
    (h : .started timer ∈ s.log) : .started timer ∈ t.log := by
  rcases log_step hstep with ⟨started, e, expired, timer', -, -, rfl⟩ | ⟨timerId, -, -, hlog⟩ |
    hlog
  · exact List.mem_append_left _ h
  · rw [hlog]
    exact List.mem_append_left _ h
  · rwa [hlog]

lemma due_step (h : History es s) {ev : Event} (hno : s.Uncancelled ev)
    (hstep : step s ev = some t) {started expired : List Entry}
    (hphase : t.phase = .firing started expired) :
    ∃ now, ((es ++ [ev]).filterMap Event.readAt).getLast? = some now ∧
      ∀ e ∈ expired, ∀ timer, t.heap e.address = some timer → timer.stamp ≤ now := by
  have hclocks := filterMap_concat Event.readAt es ev
  have hold : ev.readAt = none → ∀ {started₀ expired₀}, s.phase = .firing started₀ expired₀ →
      (∀ e ∈ expired, e ∈ expired₀) →
      ∃ now, ((es ++ [ev]).filterMap Event.readAt).getLast? = some now ∧
        ∀ e ∈ expired, ∀ timer, t.heap e.address = some timer → timer.stamp ≤ now := by
    intro hnone started₀ expired₀ hphase₀ hsub
    obtain ⟨now, hlast, hdue⟩ := h.due started₀ expired₀ hphase₀
    refine ⟨now, by simpa [hclocks, hnone] using hlast, ?_⟩
    intro e he timer htimer
    rw [waiting_step h.reached.owned hno hstep
      (by simp [hphase₀, Phase.batch, hsub e he]) (by simp [hphase, Phase.batch, he])] at htimer
    exact hdue e (hsub e he) timer htimer
  cases phase_step hstep with
  | stay resetAt readAt phase log => exact hold readAt (phase ▸ hphase) fun _ he => he
  | cancel timerId cancels live phase log =>
    rw [hno] at cancels
    cases cancels
  | read now event phase eq =>
    subst event eq
    obtain ⟨-, rfl⟩ : [] = started ∧ s.due now = expired := by
      simpa [getExpired, TimerQueue.due] using hphase
    refine ⟨now, by simp [hclocks, Event.readAt], ?_⟩
    intro e he timer htimer
    obtain ⟨hmem, hle⟩ := (mem_due h.reached).mp he
    exact (h.reached.owned.key e hmem timer htimer).le.trans hle
  | fire started' next expired' timer event phase object eq =>
    subst event eq
    obtain ⟨-, rfl⟩ : started' ++ [next] = started ∧ expired' = expired := by
      simpa [call] using hphase
    exact hold rfl phase fun _ he => List.mem_cons_of_mem next he
  | turn started' event phase eq =>
    rw [eq] at hphase
    cases hphase
  | reset next expired' timer now event phase object eq =>
    rw [eq, phase_resetOne] at hphase
    cases hphase
  | finish now event phase idle heap pTimers log =>
    rw [idle] at hphase
    cases hphase

lemma fired_logged (h : History es s) {ev : Event} (hno : s.Uncancelled ev)
    (hstep : step s ev = some t) : ∀ address ∈ t.phase.fired, ∀ timer,
      t.heap address = some timer → .started timer ∈ t.log := by
  have hold : ∀ e ∈ s.phase.batch, e ∈ t.phase.batch → e.address ∈ s.phase.fired → ∀ timer,
      t.heap e.address = some timer → .started timer ∈ t.log := by
    intro e he he' hfired timer htimer
    rw [waiting_step h.reached.owned hno hstep he he'] at htimer
    exact started_mono hstep (h.fired e.address hfired timer htimer)
  cases phase_step hstep with
  | stay resetAt readAt phase log =>
    intro address hfired
    rw [phase] at hfired
    obtain ⟨e, he, rfl⟩ := exists_of_fired hfired
    exact hold e he (phase ▸ he) hfired
  | cancel timerId cancels live phase log =>
    rw [hno] at cancels
    cases cancels
  | read now event phase eq =>
    intro address hfired
    rw [eq] at hfired
    cases hfired
  | fire started next expired timer₀ event phase object eq =>
    subst eq
    intro address hfired timer htimer
    rw [call, Phase.fired, List.map_append, List.mem_append] at hfired
    rcases hfired with hfired | hfired
    · obtain ⟨e, he, rfl⟩ := List.mem_map.mp hfired
      refine hold e ?_ ?_ (by rwa [phase]) timer htimer
      · rw [phase]
        exact List.mem_append_left _ he
      · exact List.mem_append_left _ (List.mem_append_left _ he)
    · obtain rfl : address = next.address := by simpa using hfired
      obtain rfl := Option.some.inj (object.symm.trans htimer)
      exact List.mem_append_right _ List.mem_cons_self
  | turn started event phase eq =>
    subst eq
    intro address hfired
    obtain ⟨e, he, rfl⟩ := List.mem_map.mp hfired
    refine hold e ?_ he (by rwa [phase])
    rw [phase]
    exact List.mem_append_left _ he
  | reset next expired timer now event phase object eq =>
    have hphase : t.phase = .restarting expired := by rw [eq, phase_resetOne]
    intro address hfired
    rw [hphase] at hfired
    obtain ⟨e, he, rfl⟩ := List.mem_map.mp hfired
    refine hold e ?_ (by rwa [hphase]) ?_
    · rw [phase]
      exact List.mem_cons_of_mem next he
    · rw [phase]
      exact List.mem_cons_of_mem _ hfired
  | finish now event phase idle heap pTimers log =>
    intro address hfired
    rw [idle] at hfired
    cases hfired

/-- A timer that lives stays alive, unless it is one-shot and `reset` has come to it. -/
lemma live_step (h : History es s) {ev : Event} (hno : s.Uncancelled ev)
    (hstep : step s ev = some t) {address : ℕ} {timer : Timer}
    (htimer : s.heap address = some timer) :
    (∃ timer', t.heap address = some timer' ∧ timer'.sequence = timer.sequence) ∨
    (.started timer ∈ t.log ∧ timer.isRepeat = false) := by
  cases object_step hstep with
  | same heap issued sequeue => exact Or.inl ⟨timer, by rw [heap, htimer], rfl⟩
  | new a timer' bound free fresh heap issued sequeue =>
    have ha : address ≠ a := by
      rintro rfl
      rw [free] at htimer
      cases htimer
    refine Or.inl ⟨timer, ?_, rfl⟩
    rw [heap, heap_write_of_ne ha, htimer]
  | cancel timerId cancels heap issued sequeue =>
    rw [hno] at cancels
    cases cancels
  | reset next expired timer' now event phase object heap issued sequeue =>
    by_cases ha : address = next.address
    · subst ha
      obtain rfl := Option.some.inj (object.symm.trans htimer)
      by_cases hrepeat : timer'.isRepeat = true
      · refine Or.inl ⟨timer'.restart now, ?_, rfl⟩
        rw [heap, if_pos hrepeat, heap_write_self]
      · have hfired : next.address ∈ s.phase.fired := by simp [phase, Phase.fired]
        exact Or.inr ⟨started_mono hstep (h.fired _ hfired timer' object), by simpa using hrepeat⟩
    · refine Or.inl ⟨timer, ?_, rfl⟩
      rw [heap, heap_write_of_ne ha, htimer]

lemma kept_step (h : History es s) {ev : Event} (hno : s.Uncancelled ev)
    (hstep : step s ev = some t) {timerId : TimerId} (hissued : timerId ∈ t.issued) :
    (∃ timer, t.heap timerId.timer = some timer ∧ timer.sequence = timerId.sequence) ∨
    ∃ timer, .started timer ∈ t.log ∧ timer.sequence = timerId.sequence ∧
      timer.isRepeat = false := by
  have hold : timerId ∈ s.issued →
      (∃ timer, t.heap timerId.timer = some timer ∧ timer.sequence = timerId.sequence) ∨
      ∃ timer, .started timer ∈ t.log ∧ timer.sequence = timerId.sequence ∧
        timer.isRepeat = false := by
    intro hmem
    rcases h.kept timerId hmem with ⟨timer, htimer, hsequence⟩ | ⟨timer, hstarted, hspent⟩
    · rcases live_step h hno hstep htimer with ⟨timer', htimer', hsame⟩ | ⟨hstarted, honce⟩
      · exact Or.inl ⟨timer', htimer', hsame.trans hsequence⟩
      · exact Or.inr ⟨timer, hstarted, hsequence, honce⟩
    · exact Or.inr ⟨timer, started_mono hstep hstarted, hspent⟩
  cases object_step hstep with
  | same heap issued sequeue => exact hold (issued ▸ hissued)
  | new address timer bound free fresh heap issued sequeue =>
    rw [issued, List.mem_append, List.mem_singleton] at hissued
    rcases hissued with hissued | rfl
    · exact hold hissued
    · refine Or.inl ⟨timer, ?_, rfl⟩
      rw [heap, heap_write_self]
  | cancel timerId' cancels heap issued sequeue => exact hold (issued ▸ hissued)
  | reset next expired timer now event phase object heap issued sequeue =>
    exact hold (issued ▸ hissued)

lemma history_step (h : History es s) {ev : Event} (hno : s.Uncancelled ev)
    (hstep : step s ev = some t) : History (es ++ [ev]) t where
  reached := reached_step h.reached hstep
  due := fun _ _ hphase => due_step h hno hstep hphase
  fired := fired_logged h hno hstep
  kept := fun _ hissued => kept_step h hno hstep hissued

lemma notEarly_of_history (h : History es s) : NotEarly es s := by
  intro t hstep
  obtain ⟨started, e, expired, timer, hphase, htimer, rfl⟩ := step_timeout hstep
  obtain ⟨now, hlast, hdue⟩ := h.due started (e :: expired) hphase
  exact ⟨now, timer, hlast, rfl, hdue e List.mem_cons_self timer htimer⟩

lemma noneLost_of_history (h : History es s) : NoneLost s := by
  intro timerId hissued
  rcases h.kept timerId hissued with ⟨timer, htimer, hsequence⟩ | hstarted
  · have hholder := (h.reached.owned.live timerId.timer).mpr (by simp [htimer])
    exact Or.inl ⟨timer, htimer, hsequence, by simpa using hholder⟩
  · exact Or.inr hstarted

end History

/-- Two timers for the same time, one of them repeating, and a later one. -/
def twoDue : List Event :=
  [.addTimer 32 100 1 50, .addTimer 16 100 0 50, .addTimer 48 500 0 50, .expire]

/-- The first callback adds a timer that is already due. -/
def dueInCallback : List Event :=
  [.timeout, .addTimer 64 90 0 201, .timeout, .beginReset, .resetOne 202, .resetOne 203]

lemma twoDue_isSome : (run step initial twoDue).isSome = true := by decide +kernel

lemma dueInCallback_isSome : (run step ((run step initial twoDue).get twoDue_isSome)
    (.handleRead 200 :: dueInCallback ++ [.rearm 204])).isSome = true := by decide +kernel

end RpcMuduo.TimerQueue
