import RpcMuduo.Readers

/-!
# Base-128 varints

Seven bits in a byte, the least significant first; every byte but the last has its high bit set.
Both directions are given the number of bytes that a number may take.
-/
namespace RpcMuduo.Varint
open Readers

def encode : ℕ → ℕ → List UInt8
  | 0, _ => []
  | width + 1, n =>
    if n < 128 then [UInt8.ofNat n] else UInt8.ofNat (n % 128 + 128) :: encode width (n / 128)

/-- The value is not cut to any size. -/
@[grind =] def decode : ℕ → Reader UInt8 ℕ
  | 0, _ => none
  | _ + 1, [] => none
  | width + 1, b :: bytes =>
    if b.toNat < 128 then some (b.toNat, bytes)
    else (decode width bytes).map fun r => (b.toNat - 128 + 128 * r.1, r.2)

/-- So many bytes it takes. -/
@[grind =] def size : ℕ → ℕ → ℕ
  | 0, _ => 0
  | width + 1, n => if n < 128 then 1 else 1 + size width (n / 128)

theorem encode_length (width n : ℕ) : (encode width n).length = size width n := by
  induction width generalizing n with
  | zero => rfl
  | succ width ih =>
    rw [encode, size]
    split
    · rfl
    · rw [List.length_cons, ih, Nat.add_comm]

theorem size_pos (width n : ℕ) : 0 < size (width + 1) n := by
  rw [size]
  split <;> omega

theorem size_le (width n : ℕ) : size width n ≤ width := by
  induction width generalizing n with
  | zero => exact le_rfl
  | succ width ih =>
    have hrest := ih (n / 128)
    rw [size]
    split <;> omega

theorem decode_encode {width n : ℕ} (h : n < 128 ^ (width + 1)) :
    Reads (decode (width + 1)) (encode (width + 1) n) n := by
  intro ys
  induction width generalizing n with
  | zero =>
    have hn : n < 128 := by simpa using h
    have hbyte : (UInt8.ofNat n).toNat = n := by
      rw [UInt8.toNat_ofNat']
      omega
    simp [encode, decode, hn, hbyte]
  | succ width ih =>
    rw [encode]
    split
    · rename_i hn
      have hbyte : (UInt8.ofNat n).toNat = n := by
        rw [UInt8.toNat_ofNat']
        omega
      simp [decode, hn, hbyte]
    · rename_i hn
      have hbyte : (UInt8.ofNat (n % 128 + 128)).toNat = n % 128 + 128 := by
        rw [UInt8.toNat_ofNat']
        omega
      have hrest : n / 128 < 128 ^ (width + 1) := by
        rw [pow_succ] at h
        omega
      have hlarge : ¬ n % 128 + 128 < 128 := by omega
      rw [List.cons_append, decode, hbyte, if_neg hlarge, ih hrest, Option.map_some]
      congr 2
      omega

theorem lawful_decode (width : ℕ) : Lawful (decode width) where
  shorter := by
    intro xs n rest h
    induction width generalizing xs n with
    | zero => simp [decode] at h
    | succ width ih =>
      cases xs with
      | nil => simp [decode] at h
      | cons b xs =>
        rw [decode] at h
        split at h
        · obtain ⟨rfl, rfl⟩ := Prod.mk.inj (Option.some.inj h)
          simp
        · obtain ⟨r, hr, hn⟩ := Option.map_eq_some_iff.mp h
          obtain ⟨rfl, rfl⟩ := Prod.mk.inj hn
          exact (ih hr).trans (by simp)
  append := by
    intro xs n rest h ys
    induction width generalizing xs n with
    | zero => simp [decode] at h
    | succ width ih =>
      cases xs with
      | nil => simp [decode] at h
      | cons b xs =>
        rw [decode] at h
        rw [List.cons_append, decode]
        split at h
        · rename_i hb
          obtain ⟨rfl, rfl⟩ := Prod.mk.inj (Option.some.inj h)
          rw [if_pos hb]
        · rename_i hb
          obtain ⟨r, hr, hn⟩ := Option.map_eq_some_iff.mp h
          obtain ⟨rfl, rfl⟩ := Prod.mk.inj hn
          rw [if_neg hb, ih hr, Option.map_some]

end RpcMuduo.Varint
