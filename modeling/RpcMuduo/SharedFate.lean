import Mathlib

/-!
# Independent parts with a shared end

A process of parts that take their inputs independently of each other, until one of them ends
the whole process. Up to that moment each part depends on its own inputs only.
-/
namespace RpcMuduo.SharedFate

variable {ι σ α β : Type*} [DecidableEq ι]

structure Process (ι σ : Type*) where
  parts : ι → σ
  exited : Bool

variable (next : σ → α → σ) (stop : σ → Bool)

/-- One input of one part; nothing happens once the process has ended. -/
def apply (p : Process ι σ) (e : ι × α) : Process ι σ :=
  if p.exited then p
  else
    let c := next (p.parts e.1) e.2
    ⟨Function.update p.parts e.1 c, stop c⟩

def run (p : Process ι σ) (es : List (ι × α)) : Process ι σ := es.foldl (apply next stop) p

/-- The inputs of one part, in order. -/
def inputs (i : ι) (es : List (ι × α)) : List α := (es.filter fun e => e.1 = i).map Prod.snd

/-- A part on its own, until it ends. -/
def runPart (c : σ) (as : List α) : σ :=
  as.foldl (fun c a => if stop c then c else next c a) c

structure Alive (p : Process ι σ) : Prop where
  not_exited : p.exited = false
  not_stopped : ∀ i, stop (p.parts i) = false

variable {next stop}

lemma inputs_cons_self (i : ι) (a : α) (es : List (ι × α)) :
    inputs i ((i, a) :: es) = a :: inputs i es := by
  simp [inputs]

lemma inputs_cons_ne {i j : ι} (h : j ≠ i) (a : α) (es : List (ι × α)) :
    inputs i ((j, a) :: es) = inputs i es := by
  simp [inputs, h]

lemma run_cons (p : Process ι σ) (e : ι × α) (es : List (ι × α)) :
    run next stop p (e :: es) = run next stop (apply next stop p e) es := rfl

lemma run_exited {p : Process ι σ} (h : p.exited = true) (es : List (ι × α)) :
    run next stop p es = p := by
  induction es with
  | nil => rfl
  | cons e es ih =>
    have hstep : apply next stop p e = p := by simp [apply, h]
    rw [run_cons, hstep, ih]

lemma apply_alive {p : Process ι σ} (h : Alive stop p) (i : ι) (a : α) :
    apply next stop p (i, a) = ⟨Function.update p.parts i (next (p.parts i) a),
      stop (next (p.parts i) a)⟩ := by
  simp [apply, h.not_exited]

variable (next) in
lemma alive_apply {p : Process ι σ} (h : Alive stop p) {i : ι} {a : α}
    (hc : stop (next (p.parts i) a) = false) : Alive stop (apply next stop p (i, a)) := by
  rw [apply_alive h]
  refine ⟨hc, ?_⟩
  intro j
  by_cases hj : j = i
  · subst hj
    simpa using hc
  · simpa [Function.update_of_ne hj] using h.not_stopped j

lemma runPart_cons {c : σ} (h : stop c = false) (a : α) (as : List α) :
    runPart next stop c (a :: as) = runPart next stop (next c a) as := by
  simp [runPart, h]

lemma runPart_stopped {c : σ} (h : stop c = true) (as : List α) :
    runPart next stop c as = c := by
  induction as with
  | nil => rfl
  | cons a as ih =>
    rw [runPart, List.foldl_cons, if_pos h]
    exact ih

variable (next) in
/-- What a part only adds to can only have been cut short by the end of the process. -/
theorem run_prefix {p : Process ι σ} (h : Alive stop p) {out : σ → List β}
    (hout : ∀ c a, out c <+: out (next c a)) (es : List (ι × α)) (i : ι) :
    out ((run next stop p es).parts i) <+: out (runPart next stop (p.parts i) (inputs i es)) := by
  have hgrow : ∀ as c, out c <+: out (runPart next stop c as) := by
    intro as
    induction as with
    | nil => exact fun c => List.prefix_refl _
    | cons a as ih =>
      intro c
      by_cases hc : stop c = true
      · rw [runPart_stopped hc]
      · rw [runPart_cons (by simpa using hc)]
        exact (hout c a).trans (ih _)
  induction es generalizing p with
  | nil => exact List.prefix_refl _
  | cons e es ih =>
    obtain ⟨j, a⟩ := e
    rw [run_cons]
    by_cases hc : stop (next (p.parts j) a) = true
    · have hend : (apply next stop p (j, a)).exited = true := by rw [apply_alive h, hc]
      rw [run_exited hend, apply_alive h]
      by_cases hj : j = i
      · subst hj
        rw [inputs_cons_self, runPart_cons (h.not_stopped j), runPart_stopped hc]
        simp
      · rw [inputs_cons_ne hj]
        simpa [Function.update_of_ne (Ne.symm hj)] using hgrow _ _
    · have halive := alive_apply next h (by simpa using hc)
      have hrest := ih halive
      rw [apply_alive h] at hrest ⊢
      by_cases hj : j = i
      · subst hj
        rw [inputs_cons_self, runPart_cons (h.not_stopped j)]
        simpa using hrest
      · rw [inputs_cons_ne hj]
        simpa [Function.update_of_ne (Ne.symm hj)] using hrest

/-- A part that does not end may be left out: the others and the end of the process are the
same without it. -/
theorem run_without {a : ι} {p q : Process ι σ} (hp : Alive stop p) (hq : Alive stop q)
    (hpq : ∀ i ≠ a, p.parts i = q.parts i) (es : List (ι × α))
    (ha : stop (runPart next stop (p.parts a) (inputs a es)) = false) :
    (run next stop p es).exited =
        (run next stop q (es.filter fun e => e.1 ≠ a)).exited ∧
      ∀ i ≠ a, (run next stop p es).parts i =
        (run next stop q (es.filter fun e => e.1 ≠ a)).parts i := by
  induction es generalizing p q with
  | nil => exact ⟨by rw [run, run]; simp [hp.not_exited, hq.not_exited], hpq⟩
  | cons e es ih =>
    obtain ⟨j, x⟩ := e
    rw [run_cons]
    by_cases hj : j = a
    · subst hj
      rw [inputs_cons_self, runPart_cons (hp.not_stopped j)] at ha
      have hc : stop (next (p.parts j) x) = false := by
        by_contra hc
        rw [runPart_stopped (by simpa using hc)] at ha
        exact hc ha
      have halive := alive_apply next hp hc
      have hskip : ((j, x) :: es).filter (fun e => e.1 ≠ j) = es.filter fun e => e.1 ≠ j := by
        simp
      rw [hskip]
      refine ih halive hq ?_ ?_
      · intro i hi
        rw [apply_alive hp]
        simpa [Function.update_of_ne hi] using hpq i hi
      · rw [apply_alive hp]
        simpa using ha
    · have hkeep : ((j, x) :: es).filter (fun e => e.1 ≠ a) =
          (j, x) :: es.filter fun e => e.1 ≠ a := by
        simp [hj]
      rw [hkeep, run_cons]
      rw [inputs_cons_ne hj] at ha
      have hagree : ∀ i ≠ a, (apply next stop p (j, x)).parts i =
          (apply next stop q (j, x)).parts i := by
        intro i hi
        rw [apply_alive hp, apply_alive hq]
        by_cases hij : i = j
        · subst hij
          simp [hpq i hi]
        · simpa [Function.update_of_ne hij] using hpq i hi
      by_cases hc : stop (next (p.parts j) x) = true
      · have hendp : (apply next stop p (j, x)).exited = true := by rw [apply_alive hp, hc]
        have hendq : (apply next stop q (j, x)).exited = true := by
          rw [apply_alive hq, ← hpq j hj, hc]
        rw [run_exited hendp, run_exited hendq]
        exact ⟨hendp.trans hendq.symm, hagree⟩
      · have hc' : stop (next (p.parts j) x) = false := by simpa using hc
        have halivep := alive_apply next hp hc'
        have haliveq := alive_apply next hq (a := x) (i := j) (by rw [← hpq j hj, hc'])
        refine ih halivep haliveq hagree ?_
        rw [apply_alive hp]
        simpa [Function.update_of_ne (Ne.symm hj)] using ha

end RpcMuduo.SharedFate
