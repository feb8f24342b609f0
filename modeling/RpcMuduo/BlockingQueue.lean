import RpcMuduo.ConditionVariable
import RpcMuduo.Run

/-!
# BlockingQueue

The task queue of the thread pool. A step is one section of code under the mutex: a `put` with
its signal, what `take` does from the locking of the mutex to its release, in the end or inside
`wait`. Producers and consumers are any number of threads.
-/
namespace RpcMuduo.BlockingQueue
open ConditionVariable Run

variable {θ α : Type*} [DecidableEq θ]

/-- The queue and its condition variable, with what was put and who took what, in order. -/
structure State (θ α : Type*) where
  queue : List α
  cond : Waiters θ
  puts : List α
  taken : List (θ × α)
  deriving DecidableEq

def initial : State θ α := ⟨[], .none, [], []⟩

inductive Event (θ α : Type*)
  | put (one : α) (reached : List θ)
  | take (c : θ)
  | wakeUp (c : θ)
  | resume (c : θ)

/-- The loop of `take` from its test on: back to sleep, or the front of the queue. -/
def test (s : State θ α) (c : θ) : State θ α :=
  match s.queue with
  | [] => { s with cond := s.cond.wait c }
  | front :: queue => { s with queue := queue, taken := s.taken ++ [(c, front)] }

def step (s : State θ α) : Event θ α → Option (State θ α)
  | .put one reached =>
    if s.cond.Reachable reached then
      some
        { s with
          queue := s.queue ++ [one]
          cond := s.cond.notify reached
          puts := s.puts ++ [one] }
    else none
  | .take c => if s.cond.Inside c then none else some (test s c)
  | .wakeUp c => if c ∈ s.cond.asleep then some { s with cond := s.cond.wakeUp c } else none
  | .resume c =>
    if c ∈ s.cond.signalled ∨ c ∈ s.cond.spurious then
      some (test { s with cond := s.cond.resume c } c)
    else none

/-- Nothing put is lost, taken twice or out of turn, and no wake-up is lost. -/
structure Sound (s : State θ α) : Prop where
  order : s.taken.map Prod.snd ++ s.queue = s.puts
  covered : s.cond.Covers s.queue.length

omit [DecidableEq θ] in
/-- The test takes the front for a thread that may have used up a signal. -/
theorem sound_test {s : State θ α} (c : θ) (horder : s.taken.map Prod.snd ++ s.queue = s.puts)
    (hcovered : s.cond.Covers (s.queue.length - 1)) : Sound (test s c) := by
  unfold test
  cases hq : s.queue with
  | nil =>
    refine ⟨?_, ?_⟩
    · simpa [hq] using horder
    · simpa [hq] using Waiters.covers_zero (s.cond.wait c)
  | cons front queue =>
    rw [hq] at horder hcovered
    refine ⟨?_, by simpa using hcovered⟩
    simpa using horder

theorem sound_step {s t : State θ α} {e : Event θ α} (hs : Sound s) (h : step s e = some t) :
    Sound t := by
  cases e with
  | put one reached =>
    simp only [step] at h
    split_ifs at h with hr
    cases h
    refine ⟨?_, ?_⟩
    · simp only [← hs.order, List.append_assoc]
    · rw [List.length_append, List.length_singleton]
      exact hs.covered.notify hr
  | take c =>
    simp only [step] at h
    split_ifs at h
    cases h
    exact sound_test c hs.order (hs.covered.mono (Nat.sub_le _ _))
  | wakeUp c =>
    simp only [step] at h
    split_ifs at h
    cases h
    exact ⟨hs.order, hs.covered.wakeUp⟩
  | resume c =>
    simp only [step] at h
    split_ifs at h
    cases h
    refine sound_test c hs.order ?_
    cases hq : s.queue with
    | nil => exact Waiters.covers_zero _
    | cons front queue =>
      refine Waiters.Covers.resume ?_ c
      simpa [hq] using hs.covered

/-- In every reachable state the items taken, in the order of their removal, and then the queue
are the items put in the order of their insertion; and while a consumer sleeps un-signalled there
are no more items than consumers signalled and not yet back in the critical section. -/
theorem no_lost_task_or_wakeup {es : List (Event θ α)} {s : State θ α}
    (h : run step initial es = some s) :
    s.taken.map Prod.snd ++ s.queue = s.puts ∧
      (s.cond.asleep ≠ [] → s.queue.length ≤ s.cond.signalled.length) := by
  have hs : Sound s := run_invariant (fun _ _ _ => sound_step) ⟨rfl, Waiters.covers_zero _⟩ h
  exact ⟨hs.order, hs.covered⟩

/-- Of two consumers asleep one is signalled and overtaken by a third; a fourth falls asleep and
is signalled for the next item. -/
theorem no_lost_task_or_wakeup_overtaken :
    ([(3, 10)] : List (ℕ × ℕ)).map Prod.snd ++ [11] = [10, 11] ∧
      (([2] : List ℕ) ≠ [] → ([11] : List ℕ).length ≤ ([1, 4] : List ℕ).length) := by
  have hrun : run step initial [.take 1, .take 2, .put 10 [1], .take 3, .take 4, .put 11 [4]] =
      some (⟨[11], ⟨[2], [1, 4], []⟩, [10, 11], [(3, 10)]⟩ : State ℕ ℕ) := by decide
  exact no_lost_task_or_wakeup hrun

end RpcMuduo.BlockingQueue
