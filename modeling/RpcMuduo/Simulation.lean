import RpcMuduo.Run

/-!
# Simulation of one machine by another

A step of the one machine is matched by a run of the other, so that what holds of every run of
the second holds of the related states of the first.
-/
namespace RpcMuduo.Run

variable {σ τ ε δ : Type*}

/-- Related states stay related: what the first machine does in a step that meets the guard, the
second does in a run. -/
def Simulates (step : σ → ε → Option σ) (G : σ → ε → Prop) (step' : τ → δ → Option τ)
    (R : σ → τ → Prop) : Prop :=
  ∀ s e t a, R s a → G s e → step s e = some t → ∃ ds b, run step' a ds = some b ∧ R t b

variable {step : σ → ε → Option σ} {G : σ → ε → Prop} {step' : τ → δ → Option τ}
  {R : σ → τ → Prop}

/-- Rule of simulation: what one step is matched by, a whole run is matched by. -/
theorem Simulates.run (h : Simulates step G step' R) {s t : σ} {a : τ} {es : List ε} (h0 : R s a)
    (hguard : Guarded step G s es) (hrun : run step s es = some t) :
    ∃ ds b, Run.run step' a ds = some b ∧ R t b := by
  induction es generalizing s a with
  | nil =>
    simp only [run_nil, Option.some.injEq] at hrun
    exact ⟨[], a, rfl, hrun ▸ h0⟩
  | cons e es ih =>
    obtain ⟨u, hu, hrun⟩ := run_cons_iff.mp hrun
    obtain ⟨hG, hrest⟩ := hguard u hu
    obtain ⟨ds, b, hds, hb⟩ := h s e u a h0 hG hu
    obtain ⟨ds', c, hds', hc⟩ := ih hb hrest hrun
    exact ⟨ds ++ ds', c, run_append.mpr ⟨b, hds, hds'⟩, hc⟩

/-- Where one machine is the image of another, label by label and refusals included, so are its
runs. -/
theorem run_map {step : σ → ε → Option σ} {step' : τ → ε → Option τ} {f : τ → σ} {P : τ → Prop}
    (hstep : ∀ a e, P a → step (f a) e = (step' a e).map f)
    (hkept : ∀ a e b, P a → step' a e = some b → P b) {a : τ} (h0 : P a) (es : List ε) :
    Run.run step (f a) es = (Run.run step' a es).map f := by
  induction es generalizing a with
  | nil => rfl
  | cons e es ih =>
    rw [Run.run, Run.run, hstep a e h0]
    cases hb : step' a e with
    | none => rfl
    | some b => exact ih (hkept a e b h0 hb)

/-- A single step of the second machine is a run. -/
theorem run_single {a b : τ} {d : δ} (h : step' a d = some b) : Run.run step' a [d] = some b :=
  run_cons_iff.mpr ⟨b, h, rfl⟩

end RpcMuduo.Run
