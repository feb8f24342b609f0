import Mathlib

/-!
# Finite runs of a partial labelled step

A machine is a function `step : σ → ε → Option σ`: a label is refused in the states where
the result is `none`. Runs are lists of labels, so that a witness can be executed.
-/
namespace RpcMuduo.Run

variable {σ ε : Type*}

/-- Take the labels in order; `none` as soon as one of them is refused. -/
def run (step : σ → ε → Option σ) : σ → List ε → Option σ
  | s, [] => some s
  | s, e :: es => (step s e).bind fun t => run step t es

variable {step : σ → ε → Option σ}

@[simp] theorem run_nil (s : σ) : run step s [] = some s := rfl

theorem run_cons_iff {s t : σ} {e : ε} {es : List ε} :
    run step s (e :: es) = some t ↔ ∃ u, step s e = some u ∧ run step u es = some t := by
  simp [run, Option.bind_eq_some_iff]

/-- Every label that is taken meets `G` in the state it is taken in. -/
def Guarded (step : σ → ε → Option σ) (G : σ → ε → Prop) : σ → List ε → Prop
  | _, [] => True
  | s, e :: es => ∀ t, step s e = some t → G s e ∧ Guarded step G t es

instance decidableGuarded (step : σ → ε → Option σ) (G : σ → ε → Prop)
    [∀ s e, Decidable (G s e)] : (s : σ) → (es : List ε) → Decidable (Guarded step G s es)
  | _, [] => isTrue trivial
  | s, e :: es =>
    have := fun t => decidableGuarded step G t es
    inferInstanceAs (Decidable (∀ t ∈ step s e, G s e ∧ Guarded step G t es))

/-- `P` holds at the start and after every label taken. -/
def Always (step : σ → ε → Option σ) (P : σ → Prop) : σ → List ε → Prop
  | s, [] => P s
  | s, e :: es => P s ∧ ∀ t, step s e = some t → Always step P t es

theorem Always.start {P : σ → Prop} {s : σ} {es : List ε} (h : Always step P s es) : P s := by
  cases es with
  | nil => exact h
  | cons => exact h.1

/-- Rule of invariants: what one step preserves, a whole run preserves. -/
theorem run_invariant {P : σ → Prop} (hstep : ∀ s e t, P s → step s e = some t → P t)
    {s t : σ} {es : List ε} (h0 : P s) (h : run step s es = some t) : P t := by
  induction es generalizing s with
  | nil =>
    simp only [run_nil, Option.some.injEq] at h
    exact h ▸ h0
  | cons e es ih =>
    obtain ⟨u, hu, ht⟩ := run_cons_iff.mp h
    exact ih (hstep s e u h0 hu) ht

/-- Where, as long as `P` and an invariant hold, a label preserves `P` exactly when it meets `G`,
a run keeps `P` throughout exactly when all its labels meet `G`. -/
theorem always_iff_guarded_of_invariant {P Q : σ → Prop} {G : σ → ε → Prop}
    (hstep : ∀ s e t, P s → Q s → step s e = some t → (P t ↔ G s e) ∧ (P t → Q t)) {s : σ}
    (h0 : P s) (hQ : Q s) (es : List ε) : Always step P s es ↔ Guarded step G s es := by
  induction es generalizing s with
  | nil => simp [Always, Guarded, h0]
  | cons e es ih =>
    simp only [Always, Guarded, h0, true_and]
    refine forall₂_congr fun t ht => ?_
    obtain ⟨hiff, hnext⟩ := hstep s e t h0 hQ ht
    constructor
    · intro h
      have hP := h.start
      exact ⟨hiff.mp hP, (ih hP (hnext hP)).mp h⟩
    · rintro ⟨hG, hrest⟩
      have hP := hiff.mpr hG
      exact (ih hP (hnext hP)).mpr hrest

/-- The same without an invariant. -/
theorem always_iff_guarded {P : σ → Prop} {G : σ → ε → Prop}
    (hstep : ∀ s e t, P s → step s e = some t → (P t ↔ G s e)) {s : σ} (h0 : P s)
    (es : List ε) : Always step P s es ↔ Guarded step G s es :=
  always_iff_guarded_of_invariant (Q := fun _ => True)
    (fun s e t hP _ ht => ⟨hstep s e t hP ht, fun _ => trivial⟩) h0 trivial es

/-- A guard that an invariant gives holds along every run. -/
theorem guarded_of_invariant {P : σ → Prop} {G : σ → ε → Prop}
    (hstep : ∀ s e t, P s → step s e = some t → G s e ∧ P t) {s : σ} (h0 : P s)
    (es : List ε) : Guarded step G s es := by
  induction es generalizing s with
  | nil => trivial
  | cons e es ih =>
    intro t ht
    obtain ⟨hG, hP⟩ := hstep s e t h0 ht
    exact ⟨hG, ih hP⟩

/-- A guard that looks at the labels only. -/
theorem guarded_of_forall {G : σ → ε → Prop} {es : List ε} (h : ∀ e ∈ es, ∀ s, G s e) (s : σ) :
    Guarded step G s es := by
  induction es generalizing s with
  | nil => trivial
  | cons e es ih =>
    intro t _
    exact ⟨h e List.mem_cons_self s, ih (fun e' he' => h e' (List.mem_cons_of_mem e he')) t⟩

/-- An invariant that guarded labels preserve holds along every guarded run, and with it what
it implies. -/
theorem always_of_guarded {P Q : σ → Prop} {G : σ → ε → Prop} (hPQ : ∀ s, P s → Q s)
    (hstep : ∀ s e t, P s → G s e → step s e = some t → P t) {s : σ} (h0 : P s)
    {es : List ε} (h : Guarded step G s es) : Always step Q s es := by
  induction es generalizing s with
  | nil => exact hPQ s h0
  | cons e es ih =>
    refine ⟨hPQ s h0, ?_⟩
    intro t ht
    obtain ⟨hG, hrest⟩ := h t ht
    exact ih (hstep s e t h0 hG ht) hrest

/-- What always holds along a run holds at its end. -/
theorem always_run {P : σ → Prop} {s t : σ} {es : List ε} (h : Always step P s es)
    (hrun : run step s es = some t) : P t := by
  induction es generalizing s with
  | nil =>
    simp only [run_nil, Option.some.injEq] at hrun
    exact hrun ▸ h
  | cons e es ih =>
    obtain ⟨u, hu, ht⟩ := run_cons_iff.mp hrun
    exact ih (h.2 u hu) ht

/-- Guards that agree under an invariant agree along every run. -/
theorem guarded_congr {P : σ → Prop} {G H : σ → ε → Prop}
    (hstep : ∀ s e t, P s → step s e = some t → (G s e ↔ H s e) ∧ P t) {s : σ} (h0 : P s)
    (es : List ε) : Guarded step G s es ↔ Guarded step H s es := by
  induction es generalizing s with
  | nil => exact Iff.rfl
  | cons e es ih =>
    refine forall₂_congr fun t ht => ?_
    obtain ⟨hG, hP⟩ := hstep s e t h0 ht
    exact and_congr hG (ih hP)

/-- What guards a run guards the label it ends with. -/
theorem guarded_concat {G : σ → ε → Prop} {s t u : σ} {es : List ε} {e : ε}
    (h : Guarded step G s (es ++ [e])) (hrun : run step s es = some t)
    (hstep : step t e = some u) : G t e := by
  induction es generalizing s with
  | nil =>
    simp only [run_nil, Option.some.injEq] at hrun
    subst hrun
    exact (h u hstep).1
  | cons e' es ih =>
    obtain ⟨v, hv, hrun⟩ := run_cons_iff.mp hrun
    exact ih (h v hv).2 hrun

/-- Rule of invariants for guarded runs, with the labels taken so far. -/
theorem run_history {P : List ε → σ → Prop} {G : σ → ε → Prop}
    (hstep : ∀ es s e t, P es s → G s e → step s e = some t → P (es ++ [e]) t) {s t : σ}
    {past es : List ε} (h0 : P past s) (hguard : Guarded step G s es)
    (hrun : run step s es = some t) : P (past ++ es) t := by
  induction es generalizing s past with
  | nil =>
    simp only [run_nil, Option.some.injEq] at hrun
    subst hrun
    simpa using h0
  | cons e es ih =>
    obtain ⟨u, hu, hrun⟩ := run_cons_iff.mp hrun
    obtain ⟨hG, hrest⟩ := hguard u hu
    have hnext := ih (hstep past s e u h0 hG hu) hrest hrun
    rwa [List.append_assoc, List.singleton_append] at hnext

/-- Rule of potentials: the labels of one kind are paid for by the rank of the state that a run
starts in and by what its labels bring. -/
theorem run_potential {P : σ → Prop} {rank : σ → ℕ} {kind : ε → Bool} {gain : ε → ℕ}
    (hstep : ∀ s e t, P s → step s e = some t →
      P t ∧ (if kind e then 1 else 0) + rank t ≤ rank s + gain e) {s t : σ} {es : List ε}
    (h0 : P s) (hrun : run step s es = some t) :
    es.countP kind + rank t ≤ rank s + (es.map gain).sum := by
  induction es generalizing s with
  | nil =>
    simp only [run_nil, Option.some.injEq] at hrun
    subst hrun
    simp
  | cons e es ih =>
    obtain ⟨u, hu, hrun⟩ := run_cons_iff.mp hrun
    obtain ⟨hP, hpaid⟩ := hstep s e u h0 hu
    have hrest := ih hP hrun
    simp only [List.countP_cons, List.map_cons, List.sum_cons]
    omega

theorem run_append {s t : σ} {es fs : List ε} :
    run step s (es ++ fs) = some t ↔ ∃ u, run step s es = some u ∧ run step u fs = some t := by
  induction es generalizing s with
  | nil => simp
  | cons e es ih =>
    simp only [List.cons_append, run_cons_iff, ih]
    constructor
    · rintro ⟨v, hv, u, hu, ht⟩
      exact ⟨u, ⟨v, hv, hu⟩, ht⟩
    · rintro ⟨u, ⟨v, hv, hu⟩, ht⟩
      exact ⟨v, hv, u, hu, ht⟩

/-- A run goes on under the guard where the first part of it ends. -/
theorem guarded_append {G : σ → ε → Prop} {s : σ} {es fs : List ε} :
    Guarded step G s (es ++ fs) ↔
      Guarded step G s es ∧ ∀ t, run step s es = some t → Guarded step G t fs := by
  induction es generalizing s with
  | nil => simp [Guarded]
  | cons e es ih =>
    simp only [List.cons_append, Guarded, ih]
    constructor
    · intro h
      refine ⟨fun t ht => ⟨(h t ht).1, (h t ht).2.1⟩, ?_⟩
      intro u hu
      obtain ⟨t, ht, hrun⟩ := run_cons_iff.mp hu
      exact (h t ht).2.2 u hrun
    · rintro ⟨h, hrest⟩ t ht
      exact ⟨(h t ht).1, (h t ht).2, fun u hu => hrest u (run_cons_iff.mpr ⟨t, ht, hu⟩)⟩

section History

variable {α : Type*}

/-- Every entry of a history is in order after those that come before it. -/
def Ordered (P : List α → α → Prop) (history : List α) : Prop :=
  ∀ pre a post, history = pre ++ a :: post → P pre a

theorem ordered_nil (P : List α → α → Prop) : Ordered P [] := by
  intro pre a post heq
  exact absurd heq.symm (by simp)

theorem ordered_concat {P : List α → α → Prop} {history : List α} {a : α} :
    Ordered P (history ++ [a]) ↔ Ordered P history ∧ P history a := by
  constructor
  · intro h
    refine ⟨?_, h history a [] rfl⟩
    intro pre b post heq
    exact h pre b (post ++ [a]) (by simp [heq])
  · rintro ⟨h, ha⟩ pre b post heq
    rcases List.eq_nil_or_concat' post with rfl | ⟨post, last, rfl⟩
    · obtain ⟨rfl, hlast⟩ := List.append_inj' heq rfl
      exact List.singleton_inj.mp hlast ▸ ha
    · have hsplit : history ++ [a] = (pre ++ b :: post) ++ [last] := by
        rw [heq]
        simp
      exact h pre b post (List.append_inj' hsplit rfl).1

theorem Ordered.mem {P : List α → α → Prop} {history : List α} (h : Ordered P history) {a : α}
    (ha : a ∈ history) : ∃ pre, P pre a := by
  obtain ⟨pre, post, heq⟩ := List.append_of_mem ha
  exact ⟨pre, h pre a post heq⟩

end History

end RpcMuduo.Run
