import Mathlib

/-! # Big-endian naturals of a fixed number of bytes -/
namespace RpcMuduo.BigEndian

/-- The low `width` bytes of `n`, most significant first. -/
def encode : ℕ → ℕ → List UInt8
  | 0, _ => []
  | width + 1, n => encode width (n / 256) ++ [UInt8.ofNat n]

def decode (bytes : List UInt8) : ℕ := bytes.foldl (fun acc b => 256 * acc + b.toNat) 0

@[simp] theorem encode_length (width n : ℕ) : (encode width n).length = width := by
  induction width generalizing n with
  | zero => rfl
  | succ width ih => simp [encode, ih]

theorem decode_append_singleton (bytes : List UInt8) (b : UInt8) :
    decode (bytes ++ [b]) = 256 * decode bytes + b.toNat := by
  simp [decode, List.foldl_append]

theorem decode_encode (width n : ℕ) : decode (encode width n) = n % 256 ^ width := by
  induction width generalizing n with
  | zero => simp [encode, decode, Nat.mod_one]
  | succ width ih =>
    rw [encode, decode_append_singleton, ih, UInt8.toNat_ofNat', pow_succ 256 width,
      mul_comm (256 ^ width), Nat.mod_mul]
    omega

theorem decode_inj {xs ys : List UInt8} (hlen : xs.length = ys.length)
    (h : decode xs = decode ys) : xs = ys := by
  induction xs using List.reverseRecOn generalizing ys with
  | nil => exact (List.length_eq_zero_iff.mp hlen.symm).symm
  | append_singleton xs x ih =>
    rcases List.eq_nil_or_concat' ys with rfl | ⟨ys, y, rfl⟩
    · simp at hlen
    · rw [decode_append_singleton, decode_append_singleton] at h
      have hx := x.toNat_lt
      have hy := y.toNat_lt
      have hlast : x = y := UInt8.toNat_inj.mp (by omega)
      rw [ih (by simpa using hlen) (by omega), hlast]

theorem decode_lt (bytes : List UInt8) : decode bytes < 256 ^ bytes.length := by
  induction bytes using List.reverseRecOn with
  | nil => decide
  | append_singleton bytes b ih =>
    have hb := b.toNat_lt
    rw [decode_append_singleton, List.length_append, List.length_singleton, pow_succ]
    omega

end RpcMuduo.BigEndian
