import Mathlib

/-!
# Conversions between the integer types of C

A `size_t` or `ssize_t` value is kept as a natural number or an integer; the conversions
below are the ones that can lose information, in two's complement.
-/
namespace RpcMuduo.CInt

/-- Conversion to a 32-bit signed integer. -/
def toInt32 (n : ℤ) : ℤ := (n + 2 ^ 31) % 2 ^ 32 - 2 ^ 31

/-- Conversion to a 32-bit unsigned integer. -/
def toUInt32 (n : ℤ) : ℕ := (n % 2 ^ 32).toNat

/-- Conversion to a 64-bit unsigned integer. -/
def toSizeT (n : ℤ) : ℕ := (n % 2 ^ 64).toNat

theorem toInt32_of_fits {n : ℤ} (hlo : -2 ^ 31 ≤ n) (hhi : n < 2 ^ 31) : toInt32 n = n := by
  unfold toInt32
  omega

theorem toInt32_bounds (n : ℤ) : -2 ^ 31 ≤ toInt32 n ∧ toInt32 n < 2 ^ 31 := by
  unfold toInt32
  omega

/-- The conversion from unsigned to signed 32-bit integers loses nothing. -/
theorem toInt32_inj {m n : ℕ} (hm : m < 2 ^ 32) (hn : n < 2 ^ 32)
    (h : toInt32 m = toInt32 n) : m = n := by
  unfold toInt32 at h
  omega

theorem toInt32_le {n : ℤ} (hlo : 0 ≤ n) : toInt32 n ≤ n := by
  unfold toInt32
  omega

theorem toSizeT_of_nonneg {n : ℤ} (hlo : 0 ≤ n) (hhi : n < 2 ^ 64) : (toSizeT n : ℤ) = n := by
  unfold toSizeT
  omega

theorem toSizeT_of_neg {n : ℤ} (hlo : -2 ^ 31 ≤ n) (hhi : n < 0) :
    2 ^ 64 - 2 ^ 31 ≤ toSizeT n := by
  unfold toSizeT
  omega

end RpcMuduo.CInt
