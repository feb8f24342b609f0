import Mathlib

/-!
# Readers of a prefix

A reader takes a value off the front of its input or refuses it. What a lawful reader makes of an
input does not depend on what follows the part it takes, and it takes something.
-/
namespace RpcMuduo.Readers

abbrev Reader (α β : Type*) := List α → Option (β × List α)

variable {α β γ σ : Type*}

structure Lawful (read : Reader α β) : Prop where
  shorter : ∀ {xs b rest}, read xs = some (b, rest) → rest.length < xs.length
  append : ∀ {xs b rest}, read xs = some (b, rest) → ∀ ys, read (xs ++ ys) = some (b, rest ++ ys)

/-- What a reader makes of a value that was written in front of any other input. -/
def Reads (read : Reader α β) (written : List α) (b : β) : Prop :=
  ∀ ys, read (written ++ ys) = some (b, ys)

def map (f : β → γ) (read : Reader α β) : Reader α γ := fun xs =>
  (read xs).map fun r => (f r.1, r.2)

def filter (p : β → Bool) (read : Reader α β) : Reader α β := fun xs =>
  (read xs).filter fun r => p r.1

/-- The second reader goes on where the first stops, and knows what that found. -/
def andThen (read : Reader α β) (next : β → Reader α γ) : Reader α γ := fun xs =>
  (read xs).bind fun r => next r.1 r.2

/-- So many cells. -/
def take (n : ℕ) : Reader α (List α) := fun xs =>
  if n ≤ xs.length then some (xs.take n, xs.drop n) else none

section Lawful

variable {read : Reader α β}

theorem map_eq_some {f : β → γ} {xs : List α} {c : γ} {rest : List α}
    (h : map f read xs = some (c, rest)) : ∃ b, read xs = some (b, rest) ∧ c = f b := by
  obtain ⟨r, hr, hc⟩ := Option.map_eq_some_iff.mp h
  obtain ⟨rfl, rfl⟩ := Prod.mk.inj hc
  exact ⟨r.1, hr, rfl⟩

theorem Lawful.map (h : Lawful read) (f : β → γ) : Lawful (map f read) where
  shorter := by
    intro xs c rest hread
    obtain ⟨b, hb, rfl⟩ := map_eq_some hread
    exact h.shorter hb
  append := by
    intro xs c rest hread ys
    obtain ⟨b, hb, rfl⟩ := map_eq_some hread
    simp [Readers.map, h.append hb ys]

theorem Lawful.filter (h : Lawful read) (p : β → Bool) : Lawful (filter p read) where
  shorter := by
    intro xs b rest hread
    exact h.shorter (Option.filter_eq_some_iff.mp hread).1
  append := by
    intro xs b rest hread ys
    obtain ⟨hr, hp⟩ := Option.filter_eq_some_iff.mp hread
    exact Option.filter_eq_some_iff.mpr ⟨h.append hr ys, hp⟩

theorem Lawful.andThen (h : Lawful read) {next : β → Reader α γ}
    (hnext : ∀ b, ∀ {xs c rest}, next b xs = some (c, rest) → rest.length ≤ xs.length ∧
      ∀ ys, next b (xs ++ ys) = some (c, rest ++ ys)) : Lawful (andThen read next) where
  shorter := by
    intro xs c rest hread
    obtain ⟨r, hr, hc⟩ := Option.bind_eq_some_iff.mp hread
    exact (hnext r.1 hc).1.trans_lt (h.shorter hr)
  append := by
    intro xs c rest hread ys
    obtain ⟨r, hr, hc⟩ := Option.bind_eq_some_iff.mp hread
    simp only [Readers.andThen, h.append hr ys, Option.bind_some]
    exact (hnext r.1 hc).2 ys

theorem take_append {n : ℕ} {xs b rest : List α} (h : take n xs = some (b, rest)) :
    rest.length + n = xs.length ∧ ∀ ys, take n (xs ++ ys) = some (b, rest ++ ys) := by
  simp only [take, Option.ite_none_right_eq_some, Option.some.injEq, Prod.mk.injEq] at h
  obtain ⟨hn, rfl, rfl⟩ := h
  refine ⟨by rw [List.length_drop]; omega, ?_⟩
  intro ys
  have hn' : n ≤ (xs ++ ys).length := by rw [List.length_append]; omega
  rw [take, if_pos hn', List.take_append_of_le_length hn, List.drop_append_of_le_length hn]

theorem lawful_take {n : ℕ} (hn : 0 < n) : Lawful (take n : Reader α (List α)) where
  shorter := by
    intro xs b rest h
    have hlen := (take_append h).1
    omega
  append := fun h => (take_append h).2

theorem reads_take (written : List α) : Reads (take written.length) written written := by
  intro ys
  simp [take]

end Lawful

section Exhaust

variable (turn : σ → List α → Option (σ × List α))

@[grind =] def exhaustAux : ℕ → σ → List α → Option σ
  | 0, _, _ => none
  | fuel + 1, s, xs =>
    if xs.isEmpty then some s else (turn s xs).bind fun r => exhaustAux fuel r.1 r.2

/-- Take turns until the input is used up; `none` as soon as one of them refuses. -/
def exhaust (s : σ) (xs : List α) : Option σ := exhaustAux turn (xs.length + 1) s xs

variable {turn}

@[simp] theorem exhaust_nil (s : σ) : exhaust turn s [] = some s := rfl

variable (hturn : ∀ s, Lawful (turn s))
include hturn

theorem exhaustAux_eq_exhaust {fuel : ℕ} {s : σ} {xs : List α} (h : xs.length < fuel) :
    exhaustAux turn fuel s xs = exhaust turn s xs := by
  induction fuel using Nat.strong_induction_on generalizing s xs with
  | _ fuel ih =>
    obtain ⟨k, rfl⟩ : ∃ k, fuel = k + 1 := ⟨fuel - 1, by omega⟩
    rw [exhaust, exhaustAux, exhaustAux]
    split
    · rfl
    · cases hr : turn s xs with
      | none => rfl
      | some r =>
        have hlen := (hturn s).shorter hr
        have hk : exhaustAux turn k r.1 r.2 = exhaust turn r.1 r.2 := ih k (by omega) (by omega)
        simp only [Option.bind_some, hk]
        rcases Nat.lt_or_ge xs.length (k + 1) with hlt | hge
        · exact (ih xs.length hlt hlen).symm
        · omega

theorem exhaust_of_ne_nil {s : σ} {xs : List α} (h : xs ≠ []) :
    exhaust turn s xs = (turn s xs).bind fun r => exhaust turn r.1 r.2 := by
  rw [exhaust, exhaustAux, if_neg (by simpa using h)]
  cases hr : turn s xs with
  | none => rfl
  | some r =>
    have hlen := (hturn s).shorter hr
    simp only [Option.bind_some]
    exact exhaustAux_eq_exhaust hturn hlen

/-- One turn on what was written in front of the input. -/
theorem exhaust_turn {s t : σ} {written : List α} (h : Reads (turn s) written t)
    (ys : List α) : exhaust turn s (written ++ ys) = exhaust turn t ys := by
  have hlen := (hturn s).shorter (h ys)
  have hne : written ++ ys ≠ [] := by
    intro hnil
    rw [hnil] at hlen
    simp at hlen
  rw [exhaust_of_ne_nil hturn hne, h ys, Option.bind_some]

/-- Turns from one state correspond to turns from another. -/
theorem exhaust_map {f : σ → σ}
    (hf : ∀ s xs, turn (f s) xs = (turn s xs).map fun r => (f r.1, r.2)) (s : σ) (xs : List α) :
    exhaust turn (f s) xs = (exhaust turn s xs).map f := by
  induction h : xs.length using Nat.strong_induction_on generalizing s xs with
  | _ len ih =>
    subst h
    by_cases hnil : xs = []
    · subst hnil
      simp
    · rw [exhaust_of_ne_nil hturn hnil, exhaust_of_ne_nil hturn hnil, hf]
      cases hr : turn s xs with
      | none => rfl
      | some r =>
        have hlen := (hturn s).shorter hr
        simpa using ih _ hlen r.1 r.2 rfl

/-- Input that is used up can be followed by more. -/
theorem exhaust_append {s t : σ} {xs : List α} (h : exhaust turn s xs = some t) (ys : List α) :
    exhaust turn s (xs ++ ys) = exhaust turn t ys := by
  induction hlen : xs.length using Nat.strong_induction_on generalizing s xs with
  | _ len ih =>
    subst hlen
    by_cases hnil : xs = []
    · subst hnil
      rw [exhaust_nil, Option.some.injEq] at h
      rw [h, List.nil_append]
    · rw [exhaust_of_ne_nil hturn hnil] at h
      obtain ⟨r, hr, ht⟩ := Option.bind_eq_some_iff.mp h
      have hne : xs ++ ys ≠ [] := by simp [hnil]
      rw [exhaust_of_ne_nil hturn hne, (hturn s).append hr ys,
        Option.bind_some]
      exact ih _ ((hturn s).shorter hr) ht rfl

/-- Rule of invariants for the turns of an input. -/
theorem exhaust_invariant {P : σ → Prop}
    (hP : ∀ s xs t rest, P s → turn s xs = some (t, rest) → P t) {s t : σ} {xs : List α}
    (h0 : P s) (h : exhaust turn s xs = some t) : P t := by
  induction hlen : xs.length using Nat.strong_induction_on generalizing s xs with
  | _ len ih =>
    subst hlen
    by_cases hnil : xs = []
    · subst hnil
      rw [exhaust_nil, Option.some.injEq] at h
      exact h ▸ h0
    · rw [exhaust_of_ne_nil hturn hnil] at h
      obtain ⟨r, hr, ht⟩ := Option.bind_eq_some_iff.mp h
      exact ih _ ((hturn s).shorter hr)
        (hP s xs r.1 r.2 h0 hr) ht rfl

end Exhaust

end RpcMuduo.Readers
