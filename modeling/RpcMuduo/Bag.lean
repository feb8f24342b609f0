import Mathlib

/-!
# Lists and maps counted as multisets

What leaves a list or a map by position or by key, as an equation between multisets.
-/
namespace RpcMuduo.Bag

variable {α β : Type*}

lemma coe_concat (l : List α) (a : α) : (↑(l ++ [a]) : Multiset α) = ↑l + {a} := rfl

/-- Taking out the `k`-th element. -/
lemma map_eraseIdx {l : List α} {k : ℕ} {a : α} (h : l[k]? = some a) (f : α → β) :
    (↑(l.map f) : Multiset β) = ↑((l.eraseIdx k).map f) + {f a} := by
  obtain ⟨hk, rfl⟩ := List.getElem?_eq_some_iff.mp h
  have hp := (List.getElem_cons_eraseIdx_perm hk).map f
  rw [← Multiset.coe_eq_coe.mpr hp, List.map_cons, ← Multiset.cons_coe,
    ← Multiset.singleton_add, add_comm]

/-- Taking out the entry of a key. -/
lemma entries_erase {β : α → Type*} [DecidableEq α] {s : AList β} {a : α} {b : β a}
    (h : s.lookup a = some b) :
    (↑s.entries : Multiset (Sigma β)) = ↑(s.erase a).entries + {⟨a, b⟩} := by
  have hmem : ⟨a, b⟩ ∈ s.entries := AList.mem_lookup_iff.mp h
  obtain ⟨b', l₁, l₂, hnot, hs, he⟩ := List.exists_of_kerase (List.mem_keys_of_mem hmem)
  have hb : b' = b := by
    have hin : (⟨a, b'⟩ : Sigma β) ∈ s.entries := by simp [hs]
    have hl : s.lookup a = some b' := AList.mem_lookup_iff.mpr hin
    rw [h] at hl
    exact (Option.some.inj hl).symm
  have herase : (s.erase a).entries = l₁ ++ l₂ := he
  rw [herase, hs, hb, ← Multiset.coe_singleton, Multiset.coe_add, Multiset.coe_eq_coe]
  simpa using List.perm_middle.trans (List.perm_append_singleton _ _).symm

lemma keys_erase {β : α → Type*} [DecidableEq α] {s : AList β} {a : α} (h : a ∈ s) :
    (↑s.keys : Multiset α) = ↑(s.erase a).keys + {a} := by
  have hp := Multiset.coe_eq_coe.mpr (List.perm_cons_erase (AList.mem_keys.mp h))
  rw [hp, AList.keys_erase, ← Multiset.cons_coe, ← Multiset.singleton_add, add_comm]

end RpcMuduo.Bag
