import Mathlib

/-!
# Condition variables

The threads inside `wait`: asleep, signalled, or woken for no reason. A signal reaches at least
one sleeper if there is one; which ones is not determined, nor when they run on.
-/
namespace RpcMuduo.ConditionVariable

/-- Signalled and spuriously woken threads have yet to take the mutex again. -/
structure Waiters (θ : Type*) where
  asleep : List θ
  signalled : List θ
  spurious : List θ
  deriving DecidableEq

variable {θ : Type*} [DecidableEq θ]

namespace Waiters

def none : Waiters θ := ⟨[], [], []⟩

def Inside (w : Waiters θ) (c : θ) : Prop := c ∈ w.asleep ∨ c ∈ w.signalled ∨ c ∈ w.spurious

instance (w : Waiters θ) (c : θ) : Decidable (w.Inside c) :=
  inferInstanceAs (Decidable (_ ∨ _ ∨ _))

/-- The mutex is released and the thread falls asleep in one step. -/
def wait (w : Waiters θ) (c : θ) : Waiters θ := { w with asleep := w.asleep ++ [c] }

/-- Whom a signal may reach. -/
def Reachable (w : Waiters θ) (reached : List θ) : Prop :=
  reached.Nodup ∧ (∀ c ∈ reached, c ∈ w.asleep) ∧ (w.asleep ≠ [] → reached ≠ [])

instance (w : Waiters θ) (reached : List θ) : Decidable (w.Reachable reached) :=
  inferInstanceAs (Decidable (_ ∧ _ ∧ _))

def notify (w : Waiters θ) (reached : List θ) : Waiters θ :=
  { w with
    asleep := w.asleep.filter (· ∉ reached)
    signalled := w.signalled ++ reached }

def wakeUp (w : Waiters θ) (c : θ) : Waiters θ :=
  { w with
    asleep := w.asleep.erase c
    spurious := w.spurious ++ [c] }

/-- A woken thread has the mutex again and leaves `wait`. -/
def resume (w : Waiters θ) (c : θ) : Waiters θ :=
  if c ∈ w.signalled then { w with signalled := w.signalled.erase c }
  else { w with spurious := w.spurious.erase c }

/-- While a thread is asleep, every one of `n` things to be done has a signalled thread on its
way to it. -/
def Covers (w : Waiters θ) (n : ℕ) : Prop := w.asleep ≠ [] → n ≤ w.signalled.length

variable {w : Waiters θ} {n : ℕ}

omit [DecidableEq θ] in
theorem covers_zero (w : Waiters θ) : w.Covers 0 := fun _ => Nat.zero_le _

omit [DecidableEq θ] in
theorem Covers.mono {m : ℕ} (h : w.Covers n) (hle : m ≤ n) : w.Covers m :=
  fun hne => hle.trans (h hne)

/-- A signal covers one thing more. -/
theorem Covers.notify (h : w.Covers n) {reached : List θ} (hr : w.Reachable reached) :
    (w.notify reached).Covers (n + 1) := by
  intro hne
  have hbefore : w.asleep ≠ [] := by
    intro hnil
    simp [Waiters.notify, hnil] at hne
  have hsome : 0 < reached.length := List.length_pos_iff.mpr (hr.2.2 hbefore)
  have hn := h hbefore
  simp only [Waiters.notify, List.length_append]
  omega

theorem Covers.wakeUp (h : w.Covers n) {c : θ} : (w.wakeUp c).Covers n := by
  intro hne
  refine h ?_
  intro hnil
  simp [Waiters.wakeUp, hnil] at hne

/-- A woken thread that does one of the things. -/
theorem Covers.resume (h : w.Covers (n + 1)) (c : θ) : (w.resume c).Covers n := by
  unfold Waiters.resume
  split
  · rename_i hc
    intro hne
    have hn := h hne
    have hlen := List.length_erase_of_mem hc
    simp only
    omega
  · intro hne
    have hn := h hne
    simp only
    omega

section Members

/-- The threads inside `wait`. -/
def members (w : Waiters θ) : Multiset θ := ↑w.asleep + ↑w.signalled + ↑w.spurious

omit [DecidableEq θ] in
@[simp] theorem mem_members {c : θ} : c ∈ w.members ↔ w.Inside c := by
  simp [members, Inside]

omit [DecidableEq θ] in
theorem members_wait (w : Waiters θ) (c : θ) : (w.wait c).members = c ::ₘ w.members := by
  have hasleep : (↑(w.asleep ++ [c]) : Multiset θ) = c ::ₘ ↑w.asleep :=
    Multiset.coe_eq_coe.mpr (List.perm_append_singleton c w.asleep)
  simp only [members, wait, hasleep, Multiset.cons_add]

/-- A signal moves those whom it reaches. -/
theorem members_notify {reached : List θ} (hr : w.Reachable reached) (hnodup : w.members.Nodup) :
    (w.notify reached).members = w.members := by
  have hasleep : w.asleep.Nodup := by
    have hparts := (Multiset.nodup_add.mp (Multiset.nodup_add.mp hnodup).1).1
    exact Multiset.coe_nodup.mp hparts
  have hreached : (w.asleep.filter (· ∈ reached)).Perm reached := by
    rw [List.perm_ext_iff_of_nodup (hasleep.filter _) hr.1]
    intro c
    simp only [List.mem_filter, decide_eq_true_eq, and_iff_right_iff_imp]
    exact hr.2.1 c
  have hsplit : (↑w.asleep : Multiset θ) = ↑reached + ↑(w.asleep.filter (· ∉ reached)) := by
    rw [Multiset.coe_add, Multiset.coe_eq_coe]
    have hparts := List.filter_append_perm (fun c => decide (c ∈ reached)) w.asleep
    simp only [← decide_not] at hparts
    exact hparts.symm.trans (hreached.append_right _)
  simp only [members, notify, hsplit, ← Multiset.coe_add]
  abel

theorem members_wakeUp {c : θ} (h : c ∈ w.asleep) : (w.wakeUp c).members = w.members := by
  have hasleep : (↑w.asleep : Multiset θ) = {c} + ↑(w.asleep.erase c) := by
    rw [Multiset.singleton_add, ← Multiset.coe_erase, Multiset.cons_erase (by simpa using h)]
  simp only [members, wakeUp, hasleep, ← Multiset.coe_add, Multiset.coe_singleton]
  abel

theorem members_resume {c : θ} (h : c ∈ w.signalled ∨ c ∈ w.spurious) :
    c ::ₘ (w.resume c).members = w.members := by
  unfold resume
  split_ifs with hsignalled
  · have hcons : c ::ₘ (↑(w.signalled.erase c) : Multiset θ) = ↑w.signalled := by
      rw [← Multiset.coe_erase, Multiset.cons_erase (by simpa using hsignalled)]
    simp only [members, ← hcons, Multiset.add_cons, Multiset.cons_add]
  · have hspurious : c ∈ w.spurious := h.resolve_left hsignalled
    have hcons : c ::ₘ (↑(w.spurious.erase c) : Multiset θ) = ↑w.spurious := by
      rw [← Multiset.coe_erase, Multiset.cons_erase (by simpa using hspurious)]
    simp only [members, ← hcons, Multiset.add_cons]

end Members

end Waiters

end RpcMuduo.ConditionVariable
