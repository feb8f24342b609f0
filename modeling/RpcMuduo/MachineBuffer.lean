import RpcMuduo.Buffer
import RpcMuduo.CInt

/-!
# Buffer on machine integers

The operations of `Buffer` with `size_t` arithmetic modulo `2 ^ 64`, a vector of bounded size,
and every access to it checked. While nothing wraps they are the operations of `Buffer`.
-/
namespace RpcMuduo
open Block Buffer CInt

/-- An exception of the library, or what C++ leaves undefined: an access outside the vector, a
forward copy whose destination is not before its source. -/
inductive BufferFault
  | lengthError
  | undefined
  deriving DecidableEq, Repr

structure MachineBuffer where
  buf : Bytes
  readerIndex : ℕ
  writerIndex : ℕ
  deriving DecidableEq

namespace MachineBuffer

/-- `max_size()` of a vector or string of `char`. -/
def maxSize : ℕ := 2 ^ 63 - 1

def new (initialSize : ℕ) : Except BufferFault MachineBuffer :=
  let size := toSizeT (kCheapPrepend + initialSize)
  if size ≤ maxSize then .ok ⟨List.replicate size 0, kCheapPrepend, kCheapPrepend⟩
  else .error .lengthError

def readableBytes (b : MachineBuffer) : ℕ := toSizeT (b.writerIndex - b.readerIndex)

def writableBytes (b : MachineBuffer) : ℕ := toSizeT (b.buf.length - b.writerIndex)

def prependableBytes (b : MachineBuffer) : ℕ := b.readerIndex

/-- The bytes between the two indices. -/
def readable (b : MachineBuffer) : Bytes := (b.buf.take b.writerIndex).drop b.readerIndex

/-- `std::copy` of `data` to `_buf.begin() + pos`. -/
def store (b : MachineBuffer) (pos : ℕ) (data : Bytes) : Except BufferFault MachineBuffer :=
  if pos + data.length ≤ b.buf.length then .ok { b with buf := overwrite b.buf pos data }
  else .error .undefined

def prepend (b : MachineBuffer) (data : Bytes) : Except BufferFault MachineBuffer :=
  if data.length > b.prependableBytes then .ok b
  else
    let readerIndex := b.readerIndex - data.length
    ({ b with readerIndex := readerIndex } : MachineBuffer).store readerIndex data

def retrieveAll (b : MachineBuffer) : MachineBuffer :=
  { b with readerIndex := kCheapPrepend, writerIndex := kCheapPrepend }

def retrieve (b : MachineBuffer) (len : ℕ) : MachineBuffer :=
  if len < b.readableBytes then { b with readerIndex := toSizeT (b.readerIndex + len) }
  else b.retrieveAll

def retrieveAsString (b : MachineBuffer) (len : ℕ) : Except BufferFault (Bytes × MachineBuffer) :=
  if b.readerIndex + len ≤ b.buf.length then
    .ok ((b.buf.drop b.readerIndex).take len, b.retrieve len)
  else .error .undefined

def retrieveAllAsString (b : MachineBuffer) : Except BufferFault (Bytes × MachineBuffer) :=
  b.retrieveAsString b.readableBytes

def makeSpace (b : MachineBuffer) (len : ℕ) : Except BufferFault MachineBuffer :=
  if toSizeT (b.writableBytes + b.prependableBytes) < toSizeT (len + kCheapPrepend) then
    let size := toSizeT (b.writerIndex + len)
    if size ≤ maxSize then .ok { b with buf := resize b.buf size 0 } else .error .lengthError
  else
    let readable := b.readableBytes
    if kCheapPrepend < b.readerIndex ∧ b.readerIndex ≤ b.writerIndex ∧
        b.writerIndex ≤ b.buf.length then
      .ok
        { buf := forwardCopy b.buf b.readerIndex kCheapPrepend (b.writerIndex - b.readerIndex)
          readerIndex := kCheapPrepend
          writerIndex := toSizeT (kCheapPrepend + readable) }
    else .error .undefined

def ensureWritableBytes (b : MachineBuffer) (len : ℕ) : Except BufferFault MachineBuffer :=
  if b.writableBytes < len then b.makeSpace len else .ok b

def hasWritten (b : MachineBuffer) (len : ℕ) : MachineBuffer :=
  { b with writerIndex := toSizeT (b.writerIndex + len) }

/-- Bytes stored from `beginWrite()` on and announced with `hasWritten`. -/
def write (b : MachineBuffer) (data : Bytes) : Except BufferFault MachineBuffer :=
  (b.store b.writerIndex data).map fun b => b.hasWritten data.length

/-- `append` opens with the test of `ensureWritableBytes`. -/
def append (b : MachineBuffer) (data : Bytes) : Except BufferFault MachineBuffer :=
  (b.ensureWritableBytes data.length).bind fun b => b.write data

/-- `readv` with its error, or with the bytes that it delivered. -/
def readFd (b : MachineBuffer) (result : Option Bytes) : Except BufferFault MachineBuffer :=
  match result with
  | none => .ok b
  | some data =>
    let writable := b.writableBytes
    (b.store b.writerIndex (data.take writable)).bind fun b =>
      if data.length ≤ writable then .ok (b.hasWritten data.length)
      else ({ b with writerIndex := b.buf.length } : MachineBuffer).append (data.drop writable)

/-- A buffer with its invariant, as the machine has it. -/
def ofBuffer (b : Buffer) : MachineBuffer := ⟨b.buf, b.readerIndex, b.writerIndex⟩

@[simp] theorem readable_ofBuffer (b : Buffer) : (ofBuffer b).readable = b.readable := rfl

/-- Where a vector would have to grow beyond what it can. -/
def Exceeds (b : Buffer) (len : ℕ) : Prop :=
  b.writableBytes + b.prependableBytes < len + kCheapPrepend ∧ maxSize < b.writerIndex + len

instance (b : Buffer) (len : ℕ) : Decidable (Exceeds b len) :=
  inferInstanceAs (Decidable (_ ∧ _))

/-- Buffers as operations leave them: the vector within its bound, the writer index behind the
reserve, and the reserve restored whenever nothing is left to read. -/
structure Settled (b : Buffer) : Prop where
  length_le : b.buf.length ≤ maxSize
  reserve_le_writer : kCheapPrepend ≤ b.writerIndex
  reserve_of_empty : b.readableBytes = 0 → b.readerIndex = kCheapPrepend

section Settled

variable {b : Buffer}

theorem settled_retrieveAll (h : Settled b) : Settled b.retrieveAll :=
  ⟨h.length_le, le_rfl, fun _ => rfl⟩

theorem settled_retrieve (h : Settled b) (len : ℕ) : Settled (b.retrieve len) := by
  unfold Buffer.retrieve
  split
  · rename_i hlt
    refine ⟨h.length_le, h.reserve_le_writer, ?_⟩
    simp only [Buffer.readableBytes] at hlt ⊢
    omega
  · exact settled_retrieveAll h

theorem settled_prepend (h : Settled b) (data : Bytes) : Settled (b.prepend data) := by
  have h1 := b.reader_le_writer
  have h2 := b.writer_le_size
  have hempty := h.reserve_of_empty
  unfold Buffer.prepend
  split
  · exact h
  · rename_i hfit
    simp only [Buffer.prependableBytes, Buffer.readableBytes] at hfit hempty
    refine ⟨?_, h.reserve_le_writer, ?_⟩
    · simp only
      rw [overwrite_length (by omega)]
      exact h.length_le
    · simp only [Buffer.readableBytes]
      omega

theorem settled_ensureWritableBytes (h : Settled b) {len : ℕ} (hroomy : ¬ Exceeds b len) :
    Settled (b.ensureWritableBytes len) := by
  unfold Buffer.ensureWritableBytes
  split
  · unfold Buffer.makeSpace
    split
    · rename_i hs
      refine ⟨?_, h.reserve_le_writer, h.reserve_of_empty⟩
      rw [resize_length]
      by_contra hbig
      exact hroomy ⟨hs, not_le.mp hbig⟩
    · refine ⟨?_, Nat.le_add_right _ _, fun _ => rfl⟩
      rw [forwardCopy_length]
      exact h.length_le
  · exact h

theorem settled_storeAtWriter (h : Settled b) {data : Bytes}
    (hfit : data.length ≤ b.writableBytes) : Settled (b.storeAtWriter data hfit) := by
  have h2 := b.writer_le_size
  refine ⟨?_, h.reserve_le_writer, h.reserve_of_empty⟩
  simp only [Buffer.writableBytes] at hfit
  simp only [storeAtWriter]
  rw [overwrite_length (by omega)]
  exact h.length_le

theorem settled_hasWritten (h : Settled b) {len : ℕ} (hfit : len ≤ b.writableBytes) :
    Settled (b.hasWritten len hfit) := by
  have h1 := b.reader_le_writer
  have hempty := h.reserve_of_empty
  refine ⟨h.length_le, h.reserve_le_writer.trans (Nat.le_add_right _ _), ?_⟩
  simp only [Buffer.readableBytes, Buffer.hasWritten] at hempty ⊢
  omega

theorem settled_append (h : Settled b) {data : Bytes} (hroomy : ¬ Exceeds b data.length) :
    Settled (b.append data) := by
  have hfit := b.writableBytes_ensureWritableBytes data.length
  have hstored := settled_storeAtWriter (settled_ensureWritableBytes h hroomy) hfit
  exact settled_hasWritten hstored (hfit.trans_eq (writableBytes_storeAtWriter _ data hfit).symm)

end Settled

section Refinement

theorem ofBuffer_new {initialSize : ℕ} (hfit : kCheapPrepend + initialSize < 2 ^ 64)
    {m : MachineBuffer} (h : new initialSize = .ok m) :
    m = ofBuffer (Buffer.new initialSize) ∧ Settled (Buffer.new initialSize) := by
  have hsize : toSizeT (kCheapPrepend + initialSize) = kCheapPrepend + initialSize := by
    unfold toSizeT
    omega
  simp only [new, hsize] at h
  split_ifs at h with hmax
  cases h
  exact ⟨rfl, by simpa only [Buffer.new, List.length_replicate] using hmax, le_rfl, fun _ => rfl⟩

/-- A wrapped size is too small for the reserve. -/
theorem new_wrapped {initialSize : ℕ} (hlt : initialSize < 2 ^ 64)
    (hwrap : 2 ^ 64 ≤ kCheapPrepend + initialSize) {m : MachineBuffer}
    (h : new initialSize = .ok m) : m.buf.length < m.writerIndex := by
  have hsize : toSizeT (kCheapPrepend + initialSize) < kCheapPrepend := by
    unfold toSizeT kCheapPrepend at *
    omega
  unfold new at h
  generalize toSizeT (kCheapPrepend + initialSize) = size at h hsize
  dsimp only at h
  split_ifs at h with hmax
  cases h
  rwa [List.length_replicate]

variable {b : Buffer}

theorem prepend_ofBuffer (data : Bytes) :
    (ofBuffer b).prepend data = .ok (ofBuffer (b.prepend data)) := by
  have h1 := b.reader_le_writer
  have h2 := b.writer_le_size
  unfold prepend Buffer.prepend
  by_cases h : data.length > b.prependableBytes
  · have h' : data.length > (ofBuffer b).prependableBytes := h
    rw [if_pos h', dif_pos h]
  · have h' : ¬ data.length > (ofBuffer b).prependableBytes := h
    rw [if_neg h', dif_neg h]
    simp only [Buffer.prependableBytes] at h
    rw [store, if_pos]
    · rfl
    · simp only [ofBuffer]
      omega

variable (hb : Settled b)
include hb

lemma indices_lt : b.readerIndex ≤ b.writerIndex ∧ b.writerIndex ≤ b.buf.length ∧
    b.buf.length < 2 ^ 63 := by
  refine ⟨b.reader_le_writer, b.writer_le_size, ?_⟩
  have hmax := hb.length_le
  unfold maxSize at hmax
  omega

theorem readableBytes_ofBuffer : (ofBuffer b).readableBytes = b.readableBytes := by
  obtain ⟨h1, h2, h3⟩ := indices_lt hb
  simp only [readableBytes, ofBuffer, Buffer.readableBytes, toSizeT]
  omega

theorem writableBytes_ofBuffer : (ofBuffer b).writableBytes = b.writableBytes := by
  obtain ⟨h1, h2, h3⟩ := indices_lt hb
  simp only [writableBytes, ofBuffer, Buffer.writableBytes, toSizeT]
  omega

theorem retrieve_ofBuffer (len : ℕ) : (ofBuffer b).retrieve len = ofBuffer (b.retrieve len) := by
  obtain ⟨h1, h2, h3⟩ := indices_lt hb
  unfold retrieve Buffer.retrieve
  rw [readableBytes_ofBuffer hb]
  by_cases h : len < b.readableBytes
  · rw [if_pos h, dif_pos h]
    simp only [Buffer.readableBytes] at h
    have hsum : toSizeT ((ofBuffer b).readerIndex + len) = b.readerIndex + len := by
      simp only [ofBuffer, toSizeT]
      omega
    rw [hsum]
    rfl
  · rw [if_neg h, dif_neg h]
    rfl

theorem retrieveAsString_ofBuffer {len : ℕ} (h : len ≤ b.readableBytes) :
    (ofBuffer b).retrieveAsString len =
      .ok (b.readable.take len, ofBuffer (b.retrieve len)) := by
  obtain ⟨h1, h2, h3⟩ := indices_lt hb
  have hlen := h
  simp only [Buffer.readableBytes] at hlen
  rw [retrieveAsString, if_pos, retrieve_ofBuffer hb, ← peek_take h]
  · rfl
  · simp only [ofBuffer]
    omega

theorem makeSpace_ofBuffer {len : ℕ} (h : b.writableBytes < len)
    (hfit : b.writerIndex + len < 2 ^ 64) :
    (ofBuffer b).makeSpace len =
      if Exceeds b len then .error .lengthError else .ok (ofBuffer (b.makeSpace len h)) := by
  obtain ⟨h1, h2, h3⟩ := indices_lt hb
  have hwriter := hb.reserve_le_writer
  have hread := readableBytes_ofBuffer hb
  have hroom : toSizeT ((ofBuffer b).writableBytes + (ofBuffer b).prependableBytes) =
      b.writableBytes + b.prependableBytes := by
    rw [writableBytes_ofBuffer hb]
    simp only [prependableBytes, Buffer.prependableBytes, ofBuffer, Buffer.writableBytes, toSizeT]
    omega
  have hneed : toSizeT (len + kCheapPrepend) = len + kCheapPrepend := by
    unfold toSizeT
    omega
  have hsize : toSizeT ((ofBuffer b).writerIndex + len) = b.writerIndex + len := by
    simp only [ofBuffer, toSizeT]
    omega
  unfold makeSpace Buffer.makeSpace
  rw [hroom, hneed, hsize, hread]
  by_cases hs : b.writableBytes + b.prependableBytes < len + kCheapPrepend
  · rw [if_pos hs, dif_pos hs]
    by_cases hbig : b.writerIndex + len ≤ maxSize
    · rw [if_pos hbig, if_neg fun hx => absurd hx.2 (not_lt.mpr hbig)]
      rfl
    · rw [if_neg hbig, if_pos ⟨hs, not_le.mp hbig⟩]
  · have hmove : toSizeT (kCheapPrepend + b.readableBytes) = kCheapPrepend + b.readableBytes := by
      simp only [Buffer.readableBytes, kCheapPrepend, toSizeT]
      omega
    have hbefore : kCheapPrepend < b.readerIndex := by
      simp only [Buffer.prependableBytes] at hs
      omega
    have hdefined : kCheapPrepend < (ofBuffer b).readerIndex ∧
        (ofBuffer b).readerIndex ≤ (ofBuffer b).writerIndex ∧
        (ofBuffer b).writerIndex ≤ (ofBuffer b).buf.length := ⟨hbefore, h1, h2⟩
    have hroomy : ¬ Exceeds b len := fun hx => hs hx.1
    rw [if_neg hs, dif_neg hs, if_pos hdefined, if_neg hroomy, hmove]
    rfl

theorem ensureWritableBytes_ofBuffer {len : ℕ} (hfit : b.writerIndex + len < 2 ^ 64) :
    (ofBuffer b).ensureWritableBytes len =
      if Exceeds b len then .error .lengthError
      else .ok (ofBuffer (b.ensureWritableBytes len)) := by
  have h2 := b.writer_le_size
  have hmax := hb.length_le
  unfold ensureWritableBytes Buffer.ensureWritableBytes
  rw [writableBytes_ofBuffer hb]
  by_cases h : b.writableBytes < len
  · rw [if_pos h, dif_pos h, makeSpace_ofBuffer hb h hfit]
  · have hroomy : ¬ Exceeds b len := by
      rintro ⟨-, hbig⟩
      simp only [Buffer.writableBytes] at h
      omega
    rw [if_neg h, dif_neg h, if_neg hroomy]

theorem store_ofBuffer {data : Bytes} (h : data.length ≤ b.writableBytes) :
    (ofBuffer b).store (ofBuffer b).writerIndex data =
      .ok (ofBuffer (b.storeAtWriter data h)) := by
  obtain ⟨h1, h2, h3⟩ := indices_lt hb
  simp only [Buffer.writableBytes] at h
  rw [store, if_pos]
  · rfl
  · simp only [ofBuffer]
    omega

theorem hasWritten_ofBuffer {len : ℕ} (h : len ≤ b.writableBytes) :
    (ofBuffer b).hasWritten len = ofBuffer (b.hasWritten len h) := by
  obtain ⟨h1, h2, h3⟩ := indices_lt hb
  simp only [Buffer.writableBytes] at h
  have hsum : toSizeT (b.writerIndex + len) = b.writerIndex + len := by
    unfold toSizeT
    omega
  simp only [hasWritten, ofBuffer, Buffer.hasWritten, hsum]

/-- Bytes stored where they fit, and the writer index behind them. -/
theorem write_ofBuffer {data : Bytes} (h : data.length ≤ b.writableBytes) :
    (ofBuffer b).write data = .ok (ofBuffer ((b.storeAtWriter data h).hasWritten data.length
      (h.trans_eq (writableBytes_storeAtWriter b data h).symm))) := by
  rw [write, store_ofBuffer hb h, Except.map, hasWritten_ofBuffer (settled_storeAtWriter hb h)]

theorem append_ofBuffer {data : Bytes} (hdata : data.length ≤ maxSize) :
    (ofBuffer b).append data =
      if Exceeds b data.length then .error .lengthError else .ok (ofBuffer (b.append data)) := by
  obtain ⟨h1, h2, h3⟩ := indices_lt hb
  have hfit : b.writerIndex + data.length < 2 ^ 64 := by
    unfold maxSize at hdata
    omega
  rw [append, ensureWritableBytes_ofBuffer hb hfit]
  by_cases hx : Exceeds b data.length
  · rw [if_pos hx, if_pos hx]
    rfl
  · rw [if_neg hx, if_neg hx, Except.bind, write_ofBuffer (settled_ensureWritableBytes hb hx)
      (b.writableBytes_ensureWritableBytes data.length)]
    rfl

/-- `readFd` fails only where the bytes that did not fit need more memory than there is. -/
theorem readFd_ofBuffer {data : Bytes} (hdata : data.length ≤ maxSize) :
    (ofBuffer b).readFd (some data) = .error .lengthError ∨
      (ofBuffer b).readFd (some data) = .ok (ofBuffer (b.readFd data)) ∧
        Settled (b.readFd data) := by
  simp only [readFd, writableBytes_ofBuffer hb]
  unfold Buffer.readFd
  by_cases h : data.length ≤ b.writableBytes
  · have hroom := h.trans_eq (writableBytes_storeAtWriter b data h).symm
    have hstored := settled_storeAtWriter hb h
    rw [dif_pos h, List.take_of_length_le h, store_ofBuffer hb h, Except.bind, if_pos h,
      hasWritten_ofBuffer hstored hroom]
    exact .inr ⟨rfl, settled_hasWritten hstored hroom⟩
  · have ht : (data.take b.writableBytes).length = b.writableBytes := by
      rw [List.length_take]
      omega
    have hroom := (writableBytes_storeAtWriter b (data.take b.writableBytes) ht.le).ge
    have hfull : ({ ofBuffer (b.storeAtWriter (data.take b.writableBytes) ht.le) with
          writerIndex := (ofBuffer (b.storeAtWriter (data.take b.writableBytes) ht.le)).buf.length }
          : MachineBuffer) =
        ofBuffer ((b.storeAtWriter (data.take b.writableBytes) ht.le).hasWritten b.writableBytes
          hroom) := by
      have h2 := b.writer_le_size
      simp only [ofBuffer, storeAtWriter, Buffer.hasWritten, Buffer.writableBytes] at ht ⊢
      rw [overwrite_length (by omega)]
      simp only [MachineBuffer.mk.injEq, true_and]
      omega
    rw [dif_neg h, store_ofBuffer hb ht.le, Except.bind, if_neg h, hfull]
    have hwritten := settled_hasWritten (settled_storeAtWriter hb ht.le) hroom
    have hrest : (data.drop b.writableBytes).length ≤ maxSize := by
      rw [List.length_drop]
      omega
    dsimp only
    generalize (b.storeAtWriter (data.take b.writableBytes) ht.le).hasWritten b.writableBytes
      hroom = c at hwritten ⊢
    rw [append_ofBuffer hwritten hrest]
    split_ifs with hx
    · exact .inl rfl
    · exact .inr ⟨rfl, settled_append hwritten hx⟩

end Refinement

end MachineBuffer

end RpcMuduo
