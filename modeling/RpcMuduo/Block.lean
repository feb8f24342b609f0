import Mathlib

/-!
# Contiguous blocks of a list used as a memory area

A list plays the area; `overwrite` is a block copy into it, `forwardCopy` a byte-by-byte
copy inside it, `resize` the growth of a vector. Nothing here knows what the area holds.
-/
namespace RpcMuduo.Block

variable {α : Type*}

/-- Copy `data` over the cells from `pos` on. -/
def overwrite (area : List α) (pos : ℕ) (data : List α) : List α :=
  area.take pos ++ data ++ area.drop (pos + data.length)

/-- Change the size of the area, filling new cells with `fill`. -/
def resize (area : List α) (size : ℕ) (fill : α) : List α :=
  area.take size ++ List.replicate (size - area.length) fill

/-- Copy `n` cells one after the other, lowest address first, inside one area. -/
def forwardCopy (area : List α) (src dst : ℕ) : ℕ → List α
  | 0 => area
  | n + 1 =>
    match area[src]? with
    | some x => forwardCopy (area.set dst x) (src + 1) (dst + 1) n
    | none => area

@[simp] theorem overwrite_length {area data : List α} {pos : ℕ}
    (h : pos + data.length ≤ area.length) :
    (overwrite area pos data).length = area.length := by
  simp only [overwrite, List.length_append, List.length_take, List.length_drop]
  omega

@[simp] theorem resize_length (area : List α) (size : ℕ) (fill : α) :
    (resize area size fill).length = size := by
  simp only [resize, List.length_append, List.length_take, List.length_replicate]
  omega

@[simp] theorem forwardCopy_length (area : List α) (src dst n : ℕ) :
    (forwardCopy area src dst n).length = area.length := by
  induction n generalizing area src dst with
  | zero => rfl
  | succ n ih =>
    simp only [forwardCopy]
    split
    · rw [ih, List.length_set]
    · rfl

theorem resize_take {area : List α} {size n : ℕ} (fill : α) (hn : n ≤ area.length)
    (hs : n ≤ size) : (resize area size fill).take n = area.take n := by
  have h : n ≤ (area.take size).length := by simp only [List.length_take]; omega
  rw [resize, List.take_append_of_le_length h, List.take_take, min_eq_left hs]

/-- Writing at the end of a filled prefix extends that prefix by the data. -/
theorem overwrite_take_end {area : List α} {pos : ℕ} (data : List α) (h : pos ≤ area.length) :
    (overwrite area pos data).take (pos + data.length) = area.take pos ++ data := by
  have hl : (area.take pos ++ data).length = pos + data.length := by
    simp only [List.length_append, List.length_take]
    omega
  rw [overwrite, List.take_append_of_le_length hl.ge, List.take_of_length_le hl.le]

/-- From the first written cell on, the area is the data and what followed it. -/
theorem overwrite_drop_start {area : List α} {pos : ℕ} (data : List α) (h : pos ≤ area.length) :
    (overwrite area pos data).drop pos = data ++ area.drop (pos + data.length) := by
  have hl : (area.take pos).length = pos := by simp only [List.length_take]; omega
  rw [overwrite, List.append_assoc, List.drop_append_of_le_length hl.ge,
    List.drop_of_length_le hl.le, List.nil_append]

theorem overwrite_set {area : List α} {pos : ℕ} {x : α} {data : List α}
    (h : pos < area.length) :
    overwrite (area.set pos x) (pos + 1) data = overwrite area pos (x :: data) := by
  have hd : (area.set pos x).drop (pos + 1 + data.length) = area.drop (pos + 1 + data.length) := by
    rw [List.drop_set, if_pos (by omega)]
  have ht : (area.set pos x).take (pos + 1) = area.take pos ++ [x] := by
    rw [List.take_add_one, List.take_set, List.set_eq_of_length_le (by simp)]
    simp [h]
  rw [overwrite, overwrite, hd, ht]
  simp only [List.append_assoc, List.singleton_append, List.length_cons, Nat.add_assoc,
    Nat.add_comm 1]

/-- A forward copy whose destination is not after its source moves the block intact: a cell
is read before the copy reaches it as a destination. -/
theorem forwardCopy_eq_overwrite {area : List α} {src dst n : ℕ} (hd : dst ≤ src)
    (hs : src + n ≤ area.length) :
    forwardCopy area src dst n = overwrite area dst ((area.drop src).take n) := by
  induction n generalizing area src dst with
  | zero => simp [forwardCopy, overwrite]
  | succ n ih =>
    have hlt : src < area.length := by omega
    simp only [forwardCopy, List.getElem?_eq_getElem hlt]
    rw [ih (by omega) (by simp only [List.length_set]; omega)]
    have hsrc : (area.set dst area[src]).drop (src + 1) = area.drop (src + 1) := by
      rw [List.drop_set, if_pos (by omega)]
    rw [hsrc, overwrite_set (by omega), List.drop_eq_getElem_cons hlt, List.take_succ_cons]

end RpcMuduo.Block
