import Mathlib

/-!
# Ordered sets

A `std::set`: its elements in increasing order, each once. The operations are those of the
standard container.
-/
namespace RpcMuduo

structure SortedSet (α : Type*) [LinearOrder α] where
  elems : List α
  sorted : elems.Pairwise (· < ·)
  deriving DecidableEq

namespace SortedSet

variable {α : Type*} [LinearOrder α]

instance : Membership α (SortedSet α) := ⟨fun s a => a ∈ s.elems⟩

lemma mem_def {a : α} {s : SortedSet α} : a ∈ s ↔ a ∈ s.elems := Iff.rfl

instance (a : α) (s : SortedSet α) : Decidable (a ∈ s) := inferInstanceAs (Decidable (a ∈ s.elems))

def empty : SortedSet α := ⟨[], List.Pairwise.nil⟩

@[simp] lemma not_mem_empty (a : α) : a ∉ (empty : SortedSet α) := List.not_mem_nil

lemma nodup (s : SortedSet α) : s.elems.Nodup := s.sorted.imp fun h => h.ne

lemma pairwise_orderedInsert {l : List α} (h : l.Pairwise (· < ·)) {a : α} (ha : a ∉ l) :
    (l.orderedInsert (· ≤ ·) a).Pairwise (· < ·) := by
  have hle : (l.orderedInsert (· ≤ ·) a).Pairwise (· ≤ ·) :=
    (h.imp fun h => h.le).orderedInsert a l
  have hnodup : (l.orderedInsert (· ≤ ·) a).Nodup :=
    (List.perm_orderedInsert (· ≤ ·) a l).nodup_iff.mpr
      (List.nodup_cons.mpr ⟨ha, h.imp fun h => h.ne⟩)
  exact (hle.and hnodup).imp fun h => lt_of_le_of_ne h.1 h.2

/-- An element that is there already stays as it is. -/
def insert (s : SortedSet α) (a : α) : SortedSet α :=
  if h : a ∈ s.elems then s
  else ⟨s.elems.orderedInsert (· ≤ ·) a, pairwise_orderedInsert s.sorted h⟩

def erase (s : SortedSet α) (a : α) : SortedSet α :=
  ⟨s.elems.erase a, s.sorted.sublist List.erase_sublist⟩

/-- The elements before `lower_bound`. -/
def below (s : SortedSet α) (bound : α) : SortedSet α :=
  ⟨s.elems.takeWhile (· < bound), s.sorted.sublist (List.takeWhile_sublist _)⟩

/-- The elements from `lower_bound` on. -/
def above (s : SortedSet α) (bound : α) : SortedSet α :=
  ⟨s.elems.dropWhile (· < bound), s.sorted.sublist (List.dropWhile_sublist _)⟩

def first (s : SortedSet α) : Option α := s.elems.head?

@[simp] lemma mem_insert {a b : α} {s : SortedSet α} : b ∈ s.insert a ↔ b = a ∨ b ∈ s := by
  unfold insert
  split
  · rename_i h
    constructor
    · exact Or.inr
    · rintro (rfl | hb)
      · exact h
      · exact hb
  · exact List.mem_orderedInsert (· ≤ ·)

@[simp] lemma mem_erase {a b : α} {s : SortedSet α} : b ∈ s.erase a ↔ b ≠ a ∧ b ∈ s :=
  s.nodup.mem_erase_iff

lemma not_lt_of_mem_dropWhile {l : List α} (h : l.Pairwise (· < ·)) {bound b : α}
    (hb : b ∈ l.dropWhile (· < bound)) : ¬ b < bound := by
  induction l with
  | nil => cases hb
  | cons a l ih =>
    rw [List.pairwise_cons] at h
    by_cases ha : a < bound
    · rw [List.dropWhile_cons_of_pos (by simpa using ha)] at hb
      exact ih h.2 hb
    · rw [List.dropWhile_cons_of_neg (by simpa using ha)] at hb
      rcases List.mem_cons.mp hb with rfl | hb
      · exact ha
      · exact fun hlt => ha ((h.1 b hb).trans hlt)

lemma below_append_above (s : SortedSet α) (bound : α) :
    (s.below bound).elems ++ (s.above bound).elems = s.elems :=
  List.takeWhile_append_dropWhile

lemma mem_below_or_above {b : α} {s : SortedSet α} (bound : α) :
    b ∈ s ↔ b ∈ s.below bound ∨ b ∈ s.above bound := by
  rw [mem_def, ← below_append_above s bound, List.mem_append]
  rfl

@[simp] lemma mem_above {b bound : α} {s : SortedSet α} :
    b ∈ s.above bound ↔ b ∈ s ∧ ¬ b < bound := by
  constructor
  · intro h
    exact ⟨(mem_below_or_above bound).mpr (Or.inr h), not_lt_of_mem_dropWhile s.sorted h⟩
  · rintro ⟨hb, hlt⟩
    rcases (mem_below_or_above bound).mp hb with h | h
    · exact absurd (by simpa using List.mem_takeWhile_imp h) hlt
    · exact h

@[simp] lemma mem_below {b bound : α} {s : SortedSet α} :
    b ∈ s.below bound ↔ b ∈ s ∧ b < bound := by
  constructor
  · intro h
    exact ⟨(mem_below_or_above bound).mpr (Or.inl h), by simpa using List.mem_takeWhile_imp h⟩
  · rintro ⟨hb, hlt⟩
    exact ((mem_below_or_above bound).mp hb).resolve_right fun h => (mem_above.mp h).2 hlt

lemma first_mem {a : α} {s : SortedSet α} (h : s.first = some a) : a ∈ s :=
  List.mem_of_mem_head? h

lemma first_le {a b : α} {s : SortedSet α} (h : s.first = some a) (hb : b ∈ s) : a ≤ b := by
  obtain ⟨l, hl⟩ := List.head?_eq_some_iff.mp h
  have hsorted := s.sorted
  rw [hl, List.pairwise_cons] at hsorted
  rw [mem_def, hl, List.mem_cons] at hb
  rcases hb with rfl | hb
  · exact le_rfl
  · exact (hsorted.1 b hb).le

lemma exists_first {a : α} {s : SortedSet α} (h : a ∈ s) : ∃ b, s.first = some b := by
  rw [mem_def] at h
  cases helems : s.elems with
  | nil =>
    rw [helems] at h
    cases h
  | cons b l => exact ⟨b, by rw [first, helems, List.head?_cons]⟩

lemma coe_insert {a : α} {s : SortedSet α} (h : a ∉ s) :
    (↑(s.insert a).elems : Multiset α) = a ::ₘ ↑s.elems := by
  have helems : (s.insert a).elems = s.elems.orderedInsert (· ≤ ·) a := by
    rw [insert, dif_neg (mem_def.not.mp h)]
  rw [helems, Multiset.cons_coe, Multiset.coe_eq_coe]
  exact List.perm_orderedInsert (· ≤ ·) a s.elems

lemma cons_coe_erase {a : α} {s : SortedSet α} (h : a ∈ s) :
    a ::ₘ ↑(s.erase a).elems = (↑s.elems : Multiset α) := by
  rw [Multiset.cons_coe, Multiset.coe_eq_coe]
  exact (List.perm_cons_erase h).symm

end SortedSet

end RpcMuduo
