import RpcMuduo.Block

/-!
# Buffer

The application buffer in front of a socket: a vector with a reader and a writer index.
The index order and the reserve at the front are fields, so that no operation can build a
buffer without them. Memory is not bounded here.
-/
namespace RpcMuduo
open Block

abbrev Bytes := List UInt8

namespace Buffer

def kCheapPrepend : ℕ := 8

def kInitialSize : ℕ := 1024

end Buffer

open Buffer in
structure Buffer where
  buf : Bytes
  readerIndex : ℕ
  writerIndex : ℕ
  reserve_le_size : kCheapPrepend ≤ buf.length
  reader_le_writer : readerIndex ≤ writerIndex
  writer_le_size : writerIndex ≤ buf.length
  deriving DecidableEq

namespace Buffer

/-- The constructor; `vector<char>(n)` holds zeros. -/
def new (initialSize : ℕ) : Buffer where
  buf := List.replicate (kCheapPrepend + initialSize) 0
  readerIndex := kCheapPrepend
  writerIndex := kCheapPrepend
  reserve_le_size := by simp
  reader_le_writer := le_rfl
  writer_le_size := by simp

def readableBytes (b : Buffer) : ℕ := b.writerIndex - b.readerIndex

def writableBytes (b : Buffer) : ℕ := b.buf.length - b.writerIndex

def prependableBytes (b : Buffer) : ℕ := b.readerIndex

/-- The memory from the address `peek()` returns to the end of the vector. -/
def peek (b : Buffer) : Bytes := b.buf.drop b.readerIndex

/-- The bytes between the two indices: what the buffer holds for its reader. -/
def readable (b : Buffer) : Bytes := (b.buf.take b.writerIndex).drop b.readerIndex

/-- The message `prepend error` is printed and nothing changes when the reserve is too small. -/
def prepend (b : Buffer) (data : Bytes) : Buffer :=
  if h : data.length > b.prependableBytes then b
  else
    { buf := overwrite b.buf (b.readerIndex - data.length) data
      readerIndex := b.readerIndex - data.length
      writerIndex := b.writerIndex
      reserve_le_size := by
        have h1 := b.reader_le_writer
        have h2 := b.writer_le_size
        have h3 := b.reserve_le_size
        simp only [prependableBytes] at h
        rw [overwrite_length (by omega)]
        exact h3
      reader_le_writer := (Nat.sub_le _ _).trans b.reader_le_writer
      writer_le_size := by
        have h1 := b.reader_le_writer
        have h2 := b.writer_le_size
        simp only [prependableBytes] at h
        rw [overwrite_length (by omega)]
        exact h2 }

def retrieveAll (b : Buffer) : Buffer :=
  { b with
    readerIndex := kCheapPrepend
    writerIndex := kCheapPrepend
    reader_le_writer := le_rfl
    writer_le_size := b.reserve_le_size }

def retrieve (b : Buffer) (len : ℕ) : Buffer :=
  if h : len < b.readableBytes then
    { b with
      readerIndex := b.readerIndex + len
      reader_le_writer := by simp only [readableBytes] at h; omega }
  else b.retrieveAll

/-- `string result(peek(), len)` reads `len` bytes from the reader index on. -/
def retrieveAsString (b : Buffer) (len : ℕ) : Bytes × Buffer :=
  (b.peek.take len, b.retrieve len)

def retrieveAllAsString (b : Buffer) : Bytes × Buffer := b.retrieveAsString b.readableBytes

/-- Private: both callers reach it only when the tail is too short. -/
def makeSpace (b : Buffer) (len : ℕ) (h : b.writableBytes < len) : Buffer :=
  if hs : b.writableBytes + b.prependableBytes < len + kCheapPrepend then
    { b with
      buf := resize b.buf (b.writerIndex + len) 0
      reserve_le_size := by
        have h1 := b.reserve_le_size
        simp only [writableBytes] at h
        rw [resize_length]
        omega
      writer_le_size := by rw [resize_length]; omega }
  else
    { buf := forwardCopy b.buf b.readerIndex kCheapPrepend b.readableBytes
      readerIndex := kCheapPrepend
      writerIndex := kCheapPrepend + b.readableBytes
      reserve_le_size := by
        rw [forwardCopy_length]
        exact b.reserve_le_size
      reader_le_writer := Nat.le_add_right _ _
      writer_le_size := by
        have h1 := b.reader_le_writer
        have h2 := b.writer_le_size
        simp only [writableBytes, prependableBytes, readableBytes] at *
        rw [forwardCopy_length]
        omega }

def ensureWritableBytes (b : Buffer) (len : ℕ) : Buffer :=
  if h : b.writableBytes < len then b.makeSpace len h else b

/-- Bytes stored through the pointer `beginWrite()`; the indices do not move. -/
def storeAtWriter (b : Buffer) (data : Bytes) (h : data.length ≤ b.writableBytes) : Buffer :=
  have hfit : b.writerIndex + data.length ≤ b.buf.length := by
    have h1 := b.writer_le_size
    simp only [writableBytes] at h
    omega
  { b with
    buf := overwrite b.buf b.writerIndex data
    reserve_le_size := by rw [overwrite_length hfit]; exact b.reserve_le_size
    writer_le_size := by rw [overwrite_length hfit]; exact b.writer_le_size }

def hasWritten (b : Buffer) (len : ℕ) (h : len ≤ b.writableBytes) : Buffer :=
  { b with
    writerIndex := b.writerIndex + len
    reader_le_writer := b.reader_le_writer.trans (Nat.le_add_right _ _)
    writer_le_size := by
      have h1 := b.writer_le_size
      simp only [writableBytes] at h
      omega }

theorem writableBytes_makeSpace (b : Buffer) (len : ℕ) (h : b.writableBytes < len) :
    len ≤ (b.makeSpace len h).writableBytes := by
  have h1 := b.reader_le_writer
  have h2 := b.writer_le_size
  unfold makeSpace
  split
  · simp only [writableBytes, resize_length]
    omega
  · rename_i hs
    simp only [writableBytes, prependableBytes, kCheapPrepend] at hs
    simp only [writableBytes, readableBytes, kCheapPrepend, forwardCopy_length]
    omega

theorem writableBytes_ensureWritableBytes (b : Buffer) (len : ℕ) :
    len ≤ (b.ensureWritableBytes len).writableBytes := by
  unfold ensureWritableBytes
  split
  · exact writableBytes_makeSpace b len _
  · omega

@[simp] theorem writableBytes_storeAtWriter (b : Buffer) (data : Bytes)
    (h : data.length ≤ b.writableBytes) :
    (b.storeAtWriter data h).writableBytes = b.writableBytes := by
  have h1 := b.writer_le_size
  simp only [writableBytes] at h
  simp only [storeAtWriter, writableBytes]
  rw [overwrite_length (by omega)]

/-- `append` opens with the test of `ensureWritableBytes`. -/
def append (b : Buffer) (data : Bytes) : Buffer :=
  have h := b.writableBytes_ensureWritableBytes data.length
  ((b.ensureWritableBytes data.length).storeAtWriter data h).hasWritten data.length
    (h.trans_eq (writableBytes_storeAtWriter _ data h).symm)

/-- `readFd` with the bytes that `readv` delivered: first into the tail of the vector, what
does not fit there into `extrabuf`, from where it is appended. -/
def readFd (b : Buffer) (data : Bytes) : Buffer :=
  if h : data.length ≤ b.writableBytes then
    (b.storeAtWriter data h).hasWritten data.length
      (h.trans_eq (writableBytes_storeAtWriter b data h).symm)
  else
    have ht : (data.take b.writableBytes).length = b.writableBytes := by
      rw [List.length_take]
      omega
    ((b.storeAtWriter (data.take b.writableBytes) ht.le).hasWritten b.writableBytes
      (writableBytes_storeAtWriter b _ ht.le).ge).append (data.drop b.writableBytes)

@[simp] theorem readable_length (b : Buffer) : b.readable.length = b.readableBytes := by
  have h := b.writer_le_size
  simp only [readable, readableBytes, List.length_drop, List.length_take]
  omega

theorem readable_eq_nil_iff (b : Buffer) : b.readable = [] ↔ b.readableBytes = 0 := by
  rw [← readable_length, List.length_eq_zero_iff]

/-- Reading from the pointer `peek()` within the readable bytes gives those bytes. -/
theorem peek_take {b : Buffer} {len : ℕ} (h : len ≤ b.readableBytes) :
    b.peek.take len = b.readable.take len := by
  have h1 := b.reader_le_writer
  simp only [readableBytes] at h
  rw [peek, readable, List.drop_take, List.take_take, min_eq_left h]

@[simp] theorem readable_new (initialSize : ℕ) : (new initialSize).readable = [] := by
  rw [readable_eq_nil_iff]
  simp [new, readableBytes]

@[simp] theorem readable_retrieveAll (b : Buffer) : b.retrieveAll.readable = [] := by
  rw [readable_eq_nil_iff]
  simp [retrieveAll, readableBytes]

/-- Retrieving drops bytes at the front, everything when asked for more than there is. -/
@[simp] theorem readable_retrieve (b : Buffer) (len : ℕ) :
    (b.retrieve len).readable = b.readable.drop len := by
  unfold retrieve
  split
  · simp only [readable, List.drop_drop]
  · rw [readable_retrieveAll, List.drop_eq_nil_of_le]
    rw [readable_length]
    omega

theorem readable_prepend {b : Buffer} {data : Bytes} (h : data.length ≤ b.prependableBytes) :
    (b.prepend data).readable = data ++ b.readable := by
  have h1 := b.reader_le_writer
  have h2 := b.writer_le_size
  have hr : b.readerIndex - data.length + data.length = b.readerIndex := by
    simp only [prependableBytes] at h
    omega
  have hlen : (b.buf.take (b.readerIndex - data.length) ++ data).length = b.readerIndex := by
    rw [List.length_append, List.length_take]
    omega
  simp only [prepend, gt_iff_lt, not_lt.mpr h, ↓reduceDIte, readable]
  rw [List.drop_take, overwrite_drop_start data (by omega), hr, List.drop_take,
    List.take_append, List.take_of_length_le (by omega)]
  congr 2
  omega

@[simp] theorem readable_makeSpace (b : Buffer) (len : ℕ) (h : b.writableBytes < len) :
    (b.makeSpace len h).readable = b.readable := by
  have h1 := b.reader_le_writer
  have h2 := b.writer_le_size
  unfold makeSpace
  split
  · simp only [readable]
    rw [resize_take 0 h2 (by omega)]
  · rename_i hs
    have hlt := h
    simp only [writableBytes, prependableBytes, kCheapPrepend] at hs hlt
    simp only [readableBytes, readable, kCheapPrepend]
    have hlen : ((b.buf.drop b.readerIndex).take (b.writerIndex - b.readerIndex)).length =
        b.writerIndex - b.readerIndex := by
      simp only [List.length_take, List.length_drop]
      omega
    have h3 : 8 ≤ b.buf.length := b.reserve_le_size
    rw [forwardCopy_eq_overwrite (by omega) (by omega), List.drop_take,
      overwrite_drop_start _ h3, List.take_append_of_le_length (by omega),
      List.take_of_length_le (by omega), List.drop_take]

@[simp] theorem readable_ensureWritableBytes (b : Buffer) (len : ℕ) :
    (b.ensureWritableBytes len).readable = b.readable := by
  unfold ensureWritableBytes
  split
  · exact readable_makeSpace b len _
  · rfl

/-- Storing at the writer index and moving it extends the readable bytes. -/
theorem readable_written (b : Buffer) (data : Bytes) (h : data.length ≤ b.writableBytes)
    (h' : data.length ≤ (b.storeAtWriter data h).writableBytes) :
    ((b.storeAtWriter data h).hasWritten data.length h').readable = b.readable ++ data := by
  have h1 := b.reader_le_writer
  have h2 := b.writer_le_size
  simp only [readable, storeAtWriter, hasWritten]
  rw [overwrite_take_end data h2, List.drop_append_of_le_length]
  simp only [List.length_take]
  omega

@[simp] theorem readable_append (b : Buffer) (data : Bytes) :
    (b.append data).readable = b.readable ++ data := by
  rw [append, readable_written, readable_ensureWritableBytes]

/-- Whatever part of the bytes was spilled, `readFd` adds exactly the bytes read. -/
theorem readable_readFd (b : Buffer) (data : Bytes) :
    (b.readFd data).readable = b.readable ++ data := by
  unfold readFd
  split
  · exact readable_written b data _ _
  · rename_i h
    have ht : (data.take b.writableBytes).length = b.writableBytes := by
      rw [List.length_take]
      omega
    have hw := readable_written b (data.take b.writableBytes) ht.le
      (by rw [writableBytes_storeAtWriter]; exact ht.le)
    simp only [ht] at hw
    rw [readable_append, hw, List.append_assoc, List.take_append_drop]

end Buffer

end RpcMuduo
