import Mathlib

/-!
# Shared ownership by reference counts

An object lives as long as its count is positive. The counts are right when each of them is the
number of strong references to the object among all those that are held.
-/
namespace RpcMuduo.StrongCount

variable {α : Type*} [DecidableEq α]

def retain (refs : α → ℕ) (a : α) : α → ℕ := fun b => if b = a then refs b + 1 else refs b

def release (refs : α → ℕ) (a : α) : α → ℕ := fun b => if b = a then refs b - 1 else refs b

/-- Every count is the number of references held. -/
def Counts (refs : α → ℕ) (held : List α) : Prop := ∀ a, refs a = held.count a

variable {refs : α → ℕ} {held : List α}

theorem counts_nil : Counts (fun _ : α => 0) [] := fun _ => rfl

theorem Counts.perm (h : Counts refs held) {held' : List α} (hperm : held'.Perm held) :
    Counts refs held' := fun a => (h a).trans (hperm.count_eq a).symm

theorem Counts.pos_iff (h : Counts refs held) {a : α} : 0 < refs a ↔ a ∈ held := by
  rw [h a, List.count_pos_iff]

theorem Counts.retain (h : Counts refs held) (a : α) : Counts (retain refs a) (a :: held) := by
  intro b
  unfold StrongCount.retain
  split
  · rename_i heq
    subst heq
    rw [List.count_cons_self, h b]
  · rename_i hne
    rw [List.count_cons_of_ne (Ne.symm hne), h b]

theorem Counts.foldl_retain (h : Counts refs held) (taken : List α) :
    Counts (taken.foldl StrongCount.retain refs) (taken ++ held) := by
  induction taken generalizing refs held with
  | nil => exact h
  | cons a taken ih => exact (ih (h.retain a)).perm List.perm_middle.symm

theorem Counts.release {a : α} (h : Counts refs (a :: held)) : Counts (release refs a) held := by
  intro b
  unfold StrongCount.release
  split
  · rename_i heq
    subst heq
    rw [h b, List.count_cons_self, Nat.add_sub_cancel]
  · rename_i hne
    rw [h b, List.count_cons_of_ne (Ne.symm hne)]

/-- Giving up several references one after the other. -/
theorem Counts.foldl_release {dropped : List α} (h : Counts refs (dropped ++ held)) :
    Counts (dropped.foldl StrongCount.release refs) held := by
  induction dropped generalizing refs with
  | nil => exact h
  | cons a dropped ih => exact ih h.release

omit [DecidableEq α] in
/-- What the entries that a filter takes and those that it leaves hold. -/
theorem perm_of_filter {β : Type*} (f : β → α) (p : β → Prop) [DecidablePred p]
    (entries : List β) : ((entries.filter p).map f ++ (entries.filter fun b => ¬ p b).map f).Perm
      (entries.map f) := by
  rw [← List.map_append]
  apply List.Perm.map
  have hperm := List.filter_append_perm (fun b => decide (p b)) entries
  simpa only [decide_not] using hperm

/-- What survives after a step that takes some references and gives up others. -/
theorem pos_of_exchange (h : Counts refs held) {refs' : α → ℕ} {held' taken dropped : List α}
    (h' : Counts refs' held') (hperm : (dropped ++ held').Perm (taken ++ held)) {a : α} :
    0 < refs' a ↔ dropped.count a < refs a + taken.count a := by
  have hcount := hperm.count_eq a
  rw [List.count_append, List.count_append] at hcount
  rw [h a, h' a]
  omega

section Drop

/-- Give up a reference; the object goes with the last one, and gives up those it holds itself. -/
def drop (members : α → List α) : ℕ → (α → ℕ) → α → α → ℕ
  | 0, refs, a => release refs a
  | fuel + 1, refs, a =>
    if refs a = 1 then (members a).foldl (drop members fuel) (release refs a) else release refs a

/-- Take some references, then drop others. -/
def exchange (members : α → List α) (fuel : ℕ) (refs : α → ℕ) (taken dropped : List α) : α → ℕ :=
  dropped.foldl (drop members fuel) (taken.foldl retain refs)

/-- Nothing goes that is held elsewhere. -/
theorem drop_of_ne_one {members : α → List α} (fuel : ℕ) {a : α} (h : refs a ≠ 1) :
    drop members fuel refs a = StrongCount.release refs a := by
  cases fuel with
  | zero => rfl
  | succ fuel => rw [drop, if_neg h]

theorem Counts.foldl_drop {members : α → List α} (fuel : ℕ) {dropped : List α}
    (h : Counts refs (dropped ++ held)) (hheld : ∀ a ∈ dropped, a ∈ held) :
    Counts (dropped.foldl (drop members fuel) refs) held := by
  induction dropped generalizing refs with
  | nil => exact h
  | cons a dropped ih =>
    have hpos : 0 < held.count a := List.count_pos_iff.mpr (hheld a List.mem_cons_self)
    have hne : refs a ≠ 1 := by
      rw [h a, List.cons_append, List.count_cons_self, List.count_append]
      omega
    rw [List.foldl_cons, drop_of_ne_one fuel hne]
    exact ih h.release fun b hb => hheld b (List.mem_cons_of_mem _ hb)

theorem Counts.exchange (members : α → List α) (fuel : ℕ) {taken dropped held' : List α}
    (h : Counts refs held) (hperm : (dropped ++ held').Perm (taken ++ held))
    (hheld : ∀ a ∈ dropped, a ∈ held') :
    Counts (exchange members fuel refs taken dropped) held' :=
  ((h.foldl_retain taken).perm hperm).foldl_drop fuel hheld

end Drop

end RpcMuduo.StrongCount
