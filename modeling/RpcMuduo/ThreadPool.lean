import RpcMuduo.BlockingQueue

/-!
# ThreadPool

`addTask` hands a task to the queue as soon as the pool has a thread, else it calls the task. A
null function is a task like any other to the queue; only the workers test for it. `_threads`
counts also the threads that `pthread_create` failed to start.
-/
namespace RpcMuduo
open Run ConditionVariable

/-- Workers are known by their numbers. A worker is at the head of its loop, inside `take`, between
the return of `take` and the test of what it returned, or busy with a task. `executed` holds the
tasks called, and `thrown` counts the `std::bad_function_call`s. -/
structure ThreadPool (τ : Type*) where
  threads : ℕ
  created : ℕ
  tasks : BlockingQueue.State ℕ (Option τ)
  idle : List ℕ
  holding : List (ℕ × Option τ)
  busy : List ℕ
  executed : List τ
  thrown : ℕ
  deriving DecidableEq

namespace ThreadPool

variable {τ : Type*} [DecidableEq τ]

/-- `startThread` is one turn of the loop of `start`. -/
inductive Event (τ : Type*)
  | startThread (created : Bool)
  | addTask (cb : Option τ) (reached : List ℕ)
  | take (c : ℕ)
  | wakeUp (c : ℕ)
  | resume (c : ℕ)
  | call (c : ℕ) (cb : Option τ)
  | finish (c : ℕ)
  deriving DecidableEq

def initial : ThreadPool τ := ⟨0, 0, BlockingQueue.initial, [], [], [], [], 0⟩

section Steps

variable (s : ThreadPool τ)

/-- The direct call of `addTask`. -/
def callInline : Option τ → ThreadPool τ
  | none => { s with thrown := s.thrown + 1 }
  | some cb => { s with executed := s.executed ++ [cb] }

/-- What `take` returns, where it returns, and `tasks` the queue that it leaves. -/
def receive (c : ℕ) (tasks : BlockingQueue.State ℕ (Option τ)) : ThreadPool τ :=
  { s with
    tasks := tasks
    holding := s.tasks.queue.head?.toList.map (Prod.mk c) ++ s.holding }

/-- `if (cb) cb();` -/
def callHeld (c : ℕ) : Option τ → ThreadPool τ
  | none => { s with idle := c :: s.idle }
  | some cb => { s with busy := c :: s.busy, executed := s.executed ++ [cb] }

end Steps

/-- Any thread may call `addTask`, a worker from inside a task as well. -/
@[grind =] def step (s : ThreadPool τ) : Event τ → Option (ThreadPool τ)
  | .startThread created =>
    let t := { s with threads := s.threads + 1 }
    if created then some { t with created := s.created + 1, idle := s.created :: s.idle }
    else some t
  | .addTask cb reached =>
    if s.threads = 0 then some (s.callInline cb)
    else (BlockingQueue.step s.tasks (.put cb reached)).map fun tasks => { s with tasks := tasks }
  | .take c =>
    if c ∈ s.idle then
      (BlockingQueue.step s.tasks (.take c)).map ({ s with idle := s.idle.erase c }.receive c)
    else none
  | .wakeUp c => (BlockingQueue.step s.tasks (.wakeUp c)).map fun tasks => { s with tasks := tasks }
  | .resume c => (BlockingQueue.step s.tasks (.resume c)).map (s.receive c)
  | .call c cb =>
    if (c, cb) ∈ s.holding then
      some ({ s with holding := s.holding.erase (c, cb) }.callHeld c cb)
    else none
  | .finish c =>
    if c ∈ s.busy then some { s with busy := s.busy.erase c, idle := c :: s.idle } else none

/-- The step is one that a worker takes by itself. -/
def Event.ofWorker : Event τ → Bool
  | .take _ | .resume _ | .call _ _ | .finish _ => true
  | _ => false

/-- What the step passes to `addTask`. -/
def Event.task : Event τ → Option τ
  | .addTask cb _ => cb
  | _ => none

/-- The steps that workers may owe to a step of others. -/
def Event.gain : Event τ → ℕ
  | .startThread _ | .wakeUp _ => 1
  | .addTask _ reached => 3 + reached.length
  | _ => 0

section Accounts

variable (s : ThreadPool τ)

/-- Where the workers are. -/
def places : Multiset ℕ :=
  ↑s.idle + ↑(s.holding.map Prod.fst) + ↑s.busy + s.tasks.cond.members

/-- Every task the pool knows of. -/
def account : Multiset τ :=
  ↑s.executed + ↑(s.holding.map Prod.snd).reduceOption + ↑s.tasks.queue.reduceOption

/-- The steps that the workers can take when nothing more happens. -/
def rank : ℕ :=
  3 * s.tasks.queue.length + 3 * s.holding.length + 2 * s.busy.length + s.idle.length +
    (s.tasks.cond.signalled.length + s.tasks.cond.spurious.length)

end Accounts

structure Inv (s : ThreadPool τ) : Prop where
  sound : BlockingQueue.Sound s.tasks
  places : s.places = Multiset.range s.created
  takers : ∀ p ∈ s.tasks.taken, p.1 < s.created

/-- A worker has left its place for the loop of `take`. -/
structure Leaves (c : ℕ) (s t : ThreadPool τ) : Prop where
  places : c ::ₘ t.places = s.places
  rank : t.rank + 1 = s.rank
  account : t.account = s.account
  created : t.created = s.created
  taken : t.tasks.taken = s.tasks.taken

variable {s t : ThreadPool τ}

section Receive

omit [DecidableEq τ]

lemma places_receive (c : ℕ) :
    (s.receive c (BlockingQueue.test s.tasks c)).places = c ::ₘ s.places := by
  unfold receive BlockingQueue.test
  cases s.tasks.queue with
  | nil =>
    simp only [places, List.head?_nil, Option.toList_none, List.map_nil, List.nil_append,
      Waiters.members_wait, Multiset.add_cons]
  | cons cb queue =>
    simp only [places, List.head?_cons, Option.toList_some, List.map_cons, List.map_nil,
      List.singleton_append, ← Multiset.cons_coe, Multiset.add_cons, Multiset.cons_add]

lemma rank_receive (c : ℕ) : (s.receive c (BlockingQueue.test s.tasks c)).rank = s.rank := by
  unfold receive BlockingQueue.test rank
  cases s.tasks.queue with
  | nil => simp [Waiters.wait]
  | cons cb queue =>
    simp only [List.head?_cons, Option.toList_some, List.map_cons, List.map_nil,
      List.singleton_append, List.length_cons]
    omega

lemma account_receive (c : ℕ) :
    (s.receive c (BlockingQueue.test s.tasks c)).account = s.account := by
  unfold receive BlockingQueue.test account
  cases s.tasks.queue with
  | nil => simp
  | cons cb queue =>
    simp only [List.head?_cons, Option.toList_some, List.map_cons, List.map_nil,
      List.singleton_append]
    cases cb with
    | none => simp
    | some cb =>
      simp only [List.reduceOption_cons_of_some, ← Multiset.cons_coe, Multiset.add_cons,
        Multiset.cons_add]

end Receive

section Workers

/-- A worker goes from the head of its loop, or from inside `wait`, to the test of the queue. -/
lemma step_take {c : ℕ} (h : step s (.take c) = some t) :
    ∃ s', Leaves c s s' ∧ BlockingQueue.step s.tasks (.take c) = some t.tasks ∧
      t = s'.receive c (BlockingQueue.test s'.tasks c) := by
  simp only [step, Option.ite_none_right_eq_some, Option.map_eq_some_iff] at h
  obtain ⟨hidle, tasks, htasks, rfl⟩ := h
  have htest : tasks = BlockingQueue.test s.tasks c := by
    simp only [BlockingQueue.step, Option.ite_none_left_eq_some, Option.some.injEq] at htasks
    exact htasks.2.symm
  refine ⟨{ s with idle := s.idle.erase c }, ⟨?_, ?_, rfl, rfl, rfl⟩, htasks, by rw [htest]⟩
  · have hcons : c ::ₘ (↑(s.idle.erase c) : Multiset ℕ) = ↑s.idle := by
      rw [← Multiset.coe_erase, Multiset.cons_erase (by simpa using hidle)]
    simp only [places, ← hcons, Multiset.cons_add]
  · have hlength := List.length_erase_add_one hidle
    simp only [rank]
    omega

lemma step_resume {c : ℕ} (h : step s (.resume c) = some t) :
    ∃ s', Leaves c s s' ∧ BlockingQueue.step s.tasks (.resume c) = some t.tasks ∧
      t = s'.receive c (BlockingQueue.test s'.tasks c) := by
  simp only [step, Option.map_eq_some_iff] at h
  obtain ⟨tasks, htasks, rfl⟩ := h
  obtain ⟨hwoken, htest⟩ : (c ∈ s.tasks.cond.signalled ∨ c ∈ s.tasks.cond.spurious) ∧
      tasks = BlockingQueue.test { s.tasks with cond := s.tasks.cond.resume c } c := by
    simp only [BlockingQueue.step, Option.ite_none_right_eq_some, Option.some.injEq] at htasks
    exact ⟨htasks.1, htasks.2.symm⟩
  refine ⟨{ s with tasks := { s.tasks with cond := s.tasks.cond.resume c } },
    ⟨?_, ?_, rfl, rfl, rfl⟩, htasks, by rw [htest]; rfl⟩
  · simp only [places, ← Waiters.members_resume hwoken, Multiset.add_cons]
  · simp only [rank, Waiters.resume]
    split_ifs with hsignalled
    · have hlength := List.length_erase_add_one hsignalled
      simp only
      omega
    · have hlength := List.length_erase_add_one (hwoken.resolve_left hsignalled)
      simp only
      omega

/-- What the workers' steps do to the accounts. -/
lemma step_ofWorker {e : Event τ} (he : e.ofWorker = true) (h : step s e = some t) :
    t.places = s.places ∧ t.account = s.account ∧ 1 + t.rank ≤ s.rank ∧
      t.created = s.created := by
  have hreceive : ∀ {s' : ThreadPool τ} {c : ℕ}, Leaves c s s' →
      t = s'.receive c (BlockingQueue.test s'.tasks c) →
      t.places = s.places ∧ t.account = s.account ∧ 1 + t.rank ≤ s.rank ∧
        t.created = s.created := by
    rintro s' c hleaves rfl
    have hrank := rank_receive (s := s') c
    refine ⟨?_, ?_, ?_, hleaves.created⟩
    · rw [places_receive, hleaves.places]
    · rw [account_receive, hleaves.account]
    · have hless := hleaves.rank
      omega
  cases e with
  | startThread created => cases he
  | addTask cb reached => cases he
  | wakeUp c => cases he
  | take c =>
    obtain ⟨s', hleaves, -, heq⟩ := step_take h
    exact hreceive hleaves heq
  | resume c =>
    obtain ⟨s', hleaves, -, heq⟩ := step_resume h
    exact hreceive hleaves heq
  | call c cb =>
    simp only [step, Option.ite_none_right_eq_some, Option.some.injEq] at h
    obtain ⟨hmem, rfl⟩ := h
    have hperm := List.perm_cons_erase hmem
    have hlength := hperm.length_eq
    have hfst := Multiset.coe_eq_coe.mpr (hperm.map Prod.fst)
    have hsnd : (↑(s.holding.map Prod.snd).reduceOption : Multiset τ) =
        ↑(cb :: (s.holding.erase (c, cb)).map Prod.snd).reduceOption :=
      Multiset.coe_eq_coe.mpr ((hperm.map Prod.snd).filterMap id)
    simp only [List.length_cons, List.map_cons] at hlength hfst
    cases cb with
    | none =>
      refine ⟨?_, ?_, ?_, rfl⟩
      · simp only [places, callHeld, hfst, ← Multiset.cons_coe, Multiset.add_cons,
          Multiset.cons_add]
      · simp only [account, callHeld, hsnd, List.reduceOption_cons_of_none]
      · simp only [rank, callHeld, List.length_cons]
        omega
    | some cb =>
      refine ⟨?_, ?_, ?_, rfl⟩
      · simp only [places, callHeld, hfst, ← Multiset.cons_coe, Multiset.add_cons,
          Multiset.cons_add]
      · have hcalled : (↑(s.executed ++ [cb]) : Multiset τ) = cb ::ₘ ↑s.executed :=
          Multiset.coe_eq_coe.mpr (List.perm_append_singleton cb s.executed)
        simp only [account, callHeld, hsnd, hcalled, List.reduceOption_cons_of_some,
          ← Multiset.cons_coe, Multiset.add_cons, Multiset.cons_add]
      · simp only [rank, callHeld, List.length_cons]
        omega
  | finish c =>
    simp only [step, Option.ite_none_right_eq_some, Option.some.injEq] at h
    obtain ⟨hmem, rfl⟩ := h
    have hcons : c ::ₘ (↑(s.busy.erase c) : Multiset ℕ) = ↑s.busy := by
      rw [← Multiset.coe_erase, Multiset.cons_erase (by simpa using hmem)]
    have hlength := List.length_erase_add_one hmem
    refine ⟨?_, rfl, ?_, rfl⟩
    · simp only [places, ← hcons, ← Multiset.cons_coe, Multiset.add_cons, Multiset.cons_add]
    · simp only [rank, List.length_cons]
      omega

end Workers

section Others

omit [DecidableEq τ] in
lemma members_nodup (hs : Inv s) : s.tasks.cond.members.Nodup := by
  have hnodup : s.places.Nodup := hs.places ▸ Multiset.nodup_range _
  exact (Multiset.nodup_add.mp hnodup).2.1

/-- What the other steps do to them. -/
lemma step_others (hs : Inv s) {e : Event τ} (he : e.ofWorker = false) (h : step s e = some t) :
    t.places = Multiset.range t.created ∧ t.account = s.account + ↑e.task.toList ∧
      t.rank ≤ s.rank + e.gain ∧ s.created ≤ t.created ∧ t.tasks.taken = s.tasks.taken ∧
      BlockingQueue.Sound t.tasks := by
  cases e with
  | take c => cases he
  | resume c => cases he
  | call c cb => cases he
  | finish c => cases he
  | startThread created =>
    simp only [step] at h
    split_ifs at h with hcreated
    · obtain rfl := Option.some.inj h
      have hplaces : (↑(s.created :: s.idle) : Multiset ℕ) + ↑(s.holding.map Prod.fst) + ↑s.busy +
          s.tasks.cond.members = s.created ::ₘ s.places := by
        simp only [places, ← Multiset.cons_coe, Multiset.cons_add]
      refine ⟨?_, ?_, ?_, Nat.le_succ _, rfl, hs.sound⟩
      · exact hplaces.trans (by rw [hs.places, Multiset.range_succ])
      · simp [account, Event.task]
      · simp only [rank, Event.gain, List.length_cons]
        omega
    · obtain rfl := Option.some.inj h
      exact ⟨hs.places, by simp [account, Event.task], Nat.le_add_right _ _, le_rfl, rfl,
        hs.sound⟩
  | addTask cb reached =>
    simp only [step] at h
    split_ifs at h with hthreads
    · obtain rfl := Option.some.inj h
      cases cb with
      | none =>
        exact ⟨hs.places, by simp [account, callInline, Event.task], Nat.le_add_right _ _, le_rfl,
          rfl, hs.sound⟩
      | some cb =>
        refine ⟨hs.places, ?_, Nat.le_add_right _ _, le_rfl, rfl, hs.sound⟩
        simp only [account, callInline, Event.task, Option.toList_some, ← Multiset.coe_add]
        abel
    · rw [Option.map_eq_some_iff] at h
      obtain ⟨tasks, hput, rfl⟩ := h
      have hsound := BlockingQueue.sound_step hs.sound hput
      simp only [BlockingQueue.step, Option.ite_none_right_eq_some, Option.some.injEq] at hput
      obtain ⟨hreached, rfl⟩ := hput
      refine ⟨?_, ?_, ?_, le_rfl, rfl, hsound⟩
      · simp only [places, Waiters.members_notify hreached (members_nodup hs)]
        exact hs.places
      · have hqueue : (s.tasks.queue ++ [cb]).reduceOption =
            s.tasks.queue.reduceOption ++ cb.toList := by
          rw [List.reduceOption_append, List.reduceOption_singleton]
        simp only [account, hqueue, Event.task, ← Multiset.coe_add]
        abel
      · simp only [rank, Event.gain, Waiters.notify, List.length_append, List.length_singleton]
        omega
  | wakeUp c =>
    simp only [step, Option.map_eq_some_iff] at h
    obtain ⟨tasks, hwake, rfl⟩ := h
    have hsound := BlockingQueue.sound_step hs.sound hwake
    simp only [BlockingQueue.step, Option.ite_none_right_eq_some, Option.some.injEq] at hwake
    obtain ⟨hasleep, rfl⟩ := hwake
    refine ⟨?_, by simp [account, Event.task], ?_, le_rfl, rfl, hsound⟩
    · simp only [places, Waiters.members_wakeUp hasleep]
      exact hs.places
    · simp only [rank, Event.gain, Waiters.wakeUp, List.length_append, List.length_singleton]
      omega

end Others

section Invariant

omit [DecidableEq τ] in
lemma taken_test {c : ℕ} {p : ℕ × Option τ} (h : p ∈ (BlockingQueue.test s.tasks c).taken) :
    p ∈ s.tasks.taken ∨ p.1 = c := by
  unfold BlockingQueue.test at h
  split at h
  · exact Or.inl h
  · rcases List.mem_append.mp h with hmem | hlast
    · exact Or.inl hmem
    · rw [List.mem_singleton] at hlast
      exact Or.inr (by rw [hlast])

lemma inv_receives (hs : Inv s) {e : Event τ} {e' : BlockingQueue.Event ℕ (Option τ)} {c : ℕ}
    {s' : ThreadPool τ} (he : e.ofWorker = true) (h : step s e = some t) (hleaves : Leaves c s s')
    (hstep : BlockingQueue.step s.tasks e' = some t.tasks)
    (heq : t = s'.receive c (BlockingQueue.test s'.tasks c)) : Inv t := by
  obtain ⟨hplaces, -, -, hcreated⟩ := step_ofWorker he h
  refine ⟨BlockingQueue.sound_step hs.sound hstep, ?_, ?_⟩
  · rw [hplaces, hs.places, hcreated]
  · intro p hp
    rw [hcreated]
    rw [heq] at hp
    rcases taken_test hp with hmem | rfl
    · exact hs.takers p (hleaves.taken ▸ hmem)
    · rw [← Multiset.mem_range, ← hs.places, ← hleaves.places]
      exact Multiset.mem_cons_self _ _

lemma inv_step (hs : Inv s) {e : Event τ} (h : step s e = some t) : Inv t := by
  cases hworker : e.ofWorker with
  | false =>
    obtain ⟨hplaces, -, -, hcreated, htaken, hsound⟩ := step_others hs hworker h
    refine ⟨hsound, hplaces, ?_⟩
    intro p hp
    exact (hs.takers p (htaken ▸ hp)).trans_le hcreated
  | true =>
    have hsame : t.tasks = s.tasks → Inv t := by
      intro htasks
      obtain ⟨hplaces, -, -, hcreated⟩ := step_ofWorker hworker h
      exact ⟨htasks ▸ hs.sound, by rw [hplaces, hs.places, hcreated],
        by rw [htasks, hcreated]; exact hs.takers⟩
    cases e with
    | startThread created => cases hworker
    | addTask cb reached => cases hworker
    | wakeUp c => cases hworker
    | take c =>
      obtain ⟨s', hleaves, hstep, heq⟩ := step_take h
      exact inv_receives hs hworker h hleaves hstep heq
    | resume c =>
      obtain ⟨s', hleaves, hstep, heq⟩ := step_resume h
      exact inv_receives hs hworker h hleaves hstep heq
    | call c cb =>
      refine hsame ?_
      simp only [step, Option.ite_none_right_eq_some, Option.some.injEq] at h
      obtain ⟨-, rfl⟩ := h
      cases cb <;> rfl
    | finish c =>
      refine hsame ?_
      simp only [step, Option.ite_none_right_eq_some, Option.some.injEq] at h
      obtain ⟨-, rfl⟩ := h
      rfl

omit [DecidableEq τ] in
lemma inv_initial : Inv (initial : ThreadPool τ) where
  sound := ⟨rfl, Waiters.covers_zero _⟩
  places := by simp [places, initial, BlockingQueue.initial, Waiters.members, Waiters.none]
  takers := by simp [initial, BlockingQueue.initial]

/-- A pool at rest has no worker but those asleep, and then no task in the queue. -/
lemma queue_at_rest (hs : Inv s) (hrest : ∀ e : Event τ, e.ofWorker = true → step s e = none) :
    s.holding = [] ∧ s.tasks.queue = if s.created = 0 then s.tasks.puts else [] := by
  have hnodup : s.places.Nodup := hs.places ▸ Multiset.nodup_range _
  have hidle : s.idle = [] := by
    refine List.eq_nil_iff_forall_not_mem.mpr ?_
    intro c hc
    have houtside : ¬ s.tasks.cond.Inside c := by
      rw [← Waiters.mem_members]
      refine Multiset.disjoint_left.mp (Multiset.nodup_add.mp hnodup).2.2 ?_
      simp [hc]
    have htake := hrest (.take c) rfl
    simp [step, hc, BlockingQueue.step, houtside] at htake
  have hholding : s.holding = [] := by
    refine List.eq_nil_iff_forall_not_mem.mpr ?_
    rintro ⟨c, cb⟩ hc
    have hcall := hrest (.call c cb) rfl
    simp [step, hc] at hcall
  have hbusy : s.busy = [] := by
    refine List.eq_nil_iff_forall_not_mem.mpr ?_
    intro c hc
    have hfinish := hrest (.finish c) rfl
    simp [step, hc] at hfinish
  have hwoken : ∀ c, ¬ (c ∈ s.tasks.cond.signalled ∨ c ∈ s.tasks.cond.spurious) := by
    intro c hc
    have hresume := hrest (.resume c) rfl
    simp [step, hc, BlockingQueue.step] at hresume
  have hsignalled : s.tasks.cond.signalled = [] :=
    List.eq_nil_iff_forall_not_mem.mpr fun c hc => hwoken c (Or.inl hc)
  have hspurious : s.tasks.cond.spurious = [] :=
    List.eq_nil_iff_forall_not_mem.mpr fun c hc => hwoken c (Or.inr hc)
  have hasleep : s.tasks.cond.asleep.length = s.created := by
    have hcard := congrArg Multiset.card hs.places
    simpa [places, hidle, hholding, hbusy, Waiters.members, hsignalled, hspurious] using hcard
  refine ⟨hholding, ?_⟩
  split_ifs with hcreated
  · have htaken : s.tasks.taken = [] := by
      refine List.eq_nil_iff_forall_not_mem.mpr ?_
      intro p hp
      have hlt := hs.takers p hp
      omega
    have horder := hs.sound.order
    rwa [htaken, List.map_nil, List.nil_append] at horder
  · have hsleepers : s.tasks.cond.asleep ≠ [] := by
      intro hnil
      rw [hnil] at hasleep
      exact hcreated hasleep.symm
    have hcovered := hs.sound.covered hsleepers
    rw [hsignalled] at hcovered
    exact List.length_eq_zero_iff.mp (Nat.le_zero.mp hcovered)

end Invariant

section Runs

omit [DecidableEq τ] in
lemma task_of_worker {e : Event τ} (he : e.ofWorker = true) : e.task = none := by
  cases e <;> simp_all [Event.ofWorker, Event.task]

lemma account_step (hs : Inv s) {e : Event τ} (h : step s e = some t) :
    t.account = s.account + ↑e.task.toList := by
  cases hworker : e.ofWorker with
  | false => exact (step_others hs hworker h).2.1
  | true =>
    rw [(step_ofWorker hworker h).2.1, task_of_worker hworker]
    simp

lemma rank_step (hs : Inv s) {e : Event τ} (h : step s e = some t) :
    (if e.ofWorker then 1 else 0) + t.rank ≤ s.rank + e.gain := by
  cases hworker : e.ofWorker with
  | false => simpa using (step_others hs hworker h).2.2.1
  | true =>
    have hrank := (step_ofWorker hworker h).2.2.1
    simp only [if_true]
    omega

lemma account_run {es : List (Event τ)} (h : run step initial es = some s) :
    Inv s ∧ s.account = ↑(es.filterMap Event.task) := by
  have hnext : ∀ (es : List (Event τ)) (s : ThreadPool τ) (e : Event τ) (t : ThreadPool τ),
      Inv s ∧ s.account = ↑(es.filterMap Event.task) → True → step s e = some t →
      Inv t ∧ t.account = ↑((es ++ [e]).filterMap Event.task) := by
    rintro es s e t ⟨hs, haccount⟩ - hstep
    refine ⟨inv_step hs hstep, ?_⟩
    have htask : [e].filterMap Event.task = e.task.toList := by
      cases htask : e.task <;> simp [htask]
    rw [List.filterMap_append, htask, ← Multiset.coe_add, ← haccount]
    exact account_step hs hstep
  have hstart : Inv (initial : ThreadPool τ) ∧
      (initial : ThreadPool τ).account = ↑(([] : List (Event τ)).filterMap Event.task) :=
    ⟨inv_initial, rfl⟩
  have hguard : Guarded step (fun _ _ => True) (initial : ThreadPool τ) es :=
    guarded_of_forall (fun _ _ _ => trivial) _
  exact run_history hnext hstart hguard h

end Runs

/-- Every task passed to `addTask` is in one place: called, held by a worker that has taken it, or
queued. The workers take finitely many steps between those of the others, and when none of them can
take one more, every task has been called exactly once, unless `pthread_create` started no worker
and something was queued. -/
theorem tasks_called_once {es : List (Event τ)} {s : ThreadPool τ}
    (h : run step initial es = some s) :
    s.account = ↑(es.filterMap Event.task) ∧
      es.countP Event.ofWorker ≤ (es.map Event.gain).sum ∧
      ((∀ e : Event τ, e.ofWorker = true → step s e = none) →
        ((↑s.executed : Multiset τ) = ↑(es.filterMap Event.task) ↔
          s.created ≠ 0 ∨ s.tasks.puts.reduceOption = [])) := by
  have hsteps : ∀ (s : ThreadPool τ) (e : Event τ) (t : ThreadPool τ), Inv s → step s e = some t →
      Inv t ∧ (if e.ofWorker then 1 else 0) + t.rank ≤ s.rank + e.gain :=
    fun _ _ _ hs hstep => ⟨inv_step hs hstep, rank_step hs hstep⟩
  obtain ⟨hs, haccount⟩ := account_run h
  refine ⟨haccount, ?_, ?_⟩
  · have hpaid := run_potential hsteps inv_initial h
    have hnothing : (initial : ThreadPool τ).rank = 0 := rfl
    omega
  · intro hrest
    obtain ⟨hholding, hqueue⟩ := queue_at_rest hs hrest
    have hparts : (↑(es.filterMap Event.task) : Multiset τ) =
        ↑s.executed + ↑s.tasks.queue.reduceOption := by
      rw [← haccount]
      simp [account, hholding]
    rw [hparts, left_eq_add, Multiset.coe_eq_zero, hqueue]
    by_cases hcreated : s.created = 0
    · simp [hcreated]
    · simp [hcreated]

/-- A task runs inline, a worker is started and falls asleep, and a task and a null function are
queued; the worker calls the one and drops the other. -/
def drainEvents : List (Event ℕ) :=
  [.addTask (some 1) [], .startThread true, .take 0, .addTask (some 2) [0], .addTask none [],
    .resume 0, .call 0 (some 2), .finish 0, .take 0, .call 0 none, .take 0]

def drainedPool : ThreadPool ℕ :=
  ⟨1, 1, ⟨[], ⟨[0], [], []⟩, [some 2, none], [(0, some 2), (0, none)]⟩, [], [], [], [1, 2], 0⟩

theorem tasks_called_once_drained :
    drainedPool.account = ↑(drainEvents.filterMap Event.task) ∧
      drainEvents.countP Event.ofWorker ≤ (drainEvents.map Event.gain).sum ∧
      ((↑drainedPool.executed : Multiset ℕ) = ↑(drainEvents.filterMap Event.task) ↔
        drainedPool.created ≠ 0 ∨ drainedPool.tasks.puts.reduceOption = []) := by
  have hrun : run step initial drainEvents = some drainedPool := by decide
  have hrest : ∀ e : Event ℕ, e.ofWorker = true → step drainedPool e = none := by
    intro e he
    cases e <;> simp_all [Event.ofWorker, step, BlockingQueue.step, drainedPool]
  obtain ⟨haccount, hsteps, hcalled⟩ := tasks_called_once hrun
  exact ⟨haccount, hsteps, hcalled hrest⟩

end ThreadPool

end RpcMuduo
