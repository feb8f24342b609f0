import Mathlib

/-! # The Adler-32 checksum

Two running sums modulo 65521, packed as `b * 65536 + a`. -/
namespace RpcMuduo.Adler32

def base : ℕ := 65521

/-- One byte: `a` sums the bytes, `b` sums the successive values of `a`. -/
def update (s : ℕ × ℕ) (byte : UInt8) : ℕ × ℕ :=
  let a := (s.1 + byte.toNat) % base
  (a, (s.2 + a) % base)

/-- The checksum of `data` continued from the initial value 1. -/
def adler32 (data : List UInt8) : ℕ :=
  let s := data.foldl update (1, 0)
  s.2 * 65536 + s.1

theorem update_lt (s : ℕ × ℕ) (byte : UInt8) :
    (update s byte).1 < base ∧ (update s byte).2 < base :=
  ⟨Nat.mod_lt _ (by decide), Nat.mod_lt _ (by decide)⟩

theorem foldl_update_lt (data : List UInt8) {s : ℕ × ℕ} (h : s.1 < base ∧ s.2 < base) :
    (data.foldl update s).1 < base ∧ (data.foldl update s).2 < base := by
  induction data generalizing s with
  | nil => exact h
  | cons byte data ih => exact ih (update_lt s byte)

theorem adler32_lt (data : List UInt8) : adler32 data < 2 ^ 32 := by
  have h : (data.foldl update (1, 0)).1 < base ∧ (data.foldl update (1, 0)).2 < base :=
    foldl_update_lt data (by decide)
  simp only [base] at h
  simp only [adler32]
  omega

/-- The low half of the checksum is the sum of the bytes. -/
theorem foldl_update_fst (data : List UInt8) (s : ℕ × ℕ) :
    (data.foldl update s).1 % base = (s.1 + (data.map UInt8.toNat).sum) % base := by
  induction data generalizing s with
  | nil => simp
  | cons byte data ih =>
    rw [List.foldl_cons, ih, List.map_cons, List.sum_cons, update, Nat.mod_add_mod, Nat.add_assoc]

theorem adler32_mod (data : List UInt8) :
    adler32 data % 65536 = (1 + (data.map UInt8.toNat).sum) % base := by
  have h : (data.foldl update (1, 0)).1 < base ∧ (data.foldl update (1, 0)).2 < base :=
    foldl_update_lt data (by decide)
  have hsum := foldl_update_fst data (1, 0)
  rw [Nat.mod_eq_of_lt h.1] at hsum
  rw [← hsum, adler32]
  simp only [base] at h
  omega

/-- Two bytes are closer than the base, so a single changed byte changes the sum. -/
theorem adler32_ne (pre post : List UInt8) {x y : UInt8} (hne : x ≠ y) :
    adler32 (pre ++ x :: post) ≠ adler32 (pre ++ y :: post) := by
  intro heq
  have hmod := congrArg (· % 65536) heq
  simp only [adler32_mod, List.map_append, List.map_cons, List.sum_append, List.sum_cons] at hmod
  have hx := x.toNat_lt
  have hy := y.toNat_lt
  have hbytes : x.toNat ≠ y.toNat := fun h => hne (UInt8.toNat_inj.mp h)
  simp only [base] at hmod
  omega

example : adler32 [87, 105, 107, 105] = 0x3da0195 := by decide

end RpcMuduo.Adler32
