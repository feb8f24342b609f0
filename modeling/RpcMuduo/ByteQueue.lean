import RpcMuduo.MachineBuffer
import RpcMuduo.Run

/-!
# The buffer as a byte queue

Runs of the operations of a buffer beside the byte sequence that they stand for. The buffer
follows the sequence as long as no room is demanded whose end wraps around.
-/
namespace RpcMuduo.ByteQueue
open Block Buffer CInt Run MachineBuffer

/-- The public operations, with the bytes that their callers and the kernel bring. -/
inductive Op
  | append (data : Bytes)
  | prepend (data : Bytes)
  | retrieve (len : UInt64)
  | retrieveAll
  | retrieveAllAsString
  | retrieveAsString (len : UInt64)
  | ensureWritableBytes (len : UInt64)
  | write (data : Bytes)
  | readFd (result : Option Bytes)
  deriving DecidableEq

/-- The size of `extrabuf`. -/
def extraSize : ℕ := 65536

namespace Op

/-- What callers keep to and `readv` can deliver. No object in memory is larger than `maxSize`. -/
def Possible (b : MachineBuffer) : Op → Prop
  | append data => data.length ≤ maxSize
  | prepend data => data.length ≤ maxSize
  | retrieveAsString len => len.toNat ≤ b.readableBytes
  | write data => data.length ≤ b.writableBytes
  | readFd (some data) =>
    data.length ≤ if b.writableBytes < extraSize then b.writableBytes + extraSize
      else b.writableBytes
  | _ => True

instance (b : MachineBuffer) (op : Op) : Decidable (op.Possible b) := by
  unfold Possible
  split <;> infer_instance

/-- The returned string, empty where nothing is returned, and the buffer afterwards. -/
@[grind =] def apply (b : MachineBuffer) : Op → Except BufferFault (Bytes × MachineBuffer)
  | append data => (b.append data).map ([], ·)
  | prepend data => (b.prepend data).map ([], ·)
  | retrieve len => .ok ([], b.retrieve len.toNat)
  | retrieveAll => .ok ([], b.retrieveAll)
  | retrieveAllAsString => b.retrieveAllAsString
  | retrieveAsString len => b.retrieveAsString len.toNat
  | ensureWritableBytes len => (b.ensureWritableBytes len.toNat).map ([], ·)
  | write data => (b.write data).map ([], ·)
  | readFd result => (b.readFd result).map ([], ·)

/-- The byte sequence afterwards, when so many bytes fit in front of the readable ones. -/
def content (prependable : ℕ) (queue : Bytes) : Op → Bytes
  | append data => queue ++ data
  | prepend data => if data.length ≤ prependable then data ++ queue else queue
  | retrieve len => queue.drop (min len.toNat queue.length)
  | retrieveAll => []
  | retrieveAllAsString => []
  | retrieveAsString len => queue.drop len.toNat
  | ensureWritableBytes _ => queue
  | write data => queue ++ data
  | readFd none => queue
  | readFd (some data) => queue ++ data

def answer (queue : Bytes) : Op → Bytes
  | retrieveAllAsString => queue
  | retrieveAsString len => queue.take len.toNat
  | _ => []

/-- The room that must be there afterwards. -/
def demanded : Op → ℕ
  | ensureWritableBytes len => len.toNat
  | _ => 0

end Op

/-- A buffer and the byte sequence beside it, with what the last operation returned and what it
should have returned, and the room that it demanded. -/
structure State where
  buffer : MachineBuffer
  content : Bytes
  returned : Bytes
  expected : Bytes
  demanded : ℕ
  undefined : Bool
  deriving DecidableEq

def start (initialSize : UInt64) : Option State :=
  match MachineBuffer.new initialSize.toNat with
  | .ok b => some ⟨b, [], [], [], 0, false⟩
  | .error _ => none

/-- An exception ends the run: nothing catches it. -/
def step (s : State) (op : Op) : Option State :=
  if s.undefined = false ∧ op.Possible s.buffer then
    match op.apply s.buffer with
    | .ok (returned, b) =>
      some
        { buffer := b
          content := op.content s.buffer.prependableBytes s.content
          returned := returned
          expected := op.answer s.content
          demanded := op.demanded
          undefined := false }
    | .error .undefined => some { s with undefined := true }
    | .error .lengthError => none
  else none

/-- The buffer stands for the byte sequence. -/
structure Refines (s : State) : Prop where
  defined : s.undefined = false
  reader_le_writer : s.buffer.readerIndex ≤ s.buffer.writerIndex
  writer_le_size : s.buffer.writerIndex ≤ s.buffer.buf.length
  content : s.buffer.readable = s.content
  returned : s.returned = s.expected
  demanded : s.demanded ≤ s.buffer.writableBytes

/-- The end of the room that `ensureWritableBytes` is asked for does not wrap around. -/
def NoWrap (s : State) (op : Op) : Prop :=
  ∀ len, op = .ensureWritableBytes len → s.buffer.writerIndex + len.toNat < 2 ^ 64

/-- What an operation does to a settled buffer, unless memory runs out. -/
def Performs (b : Buffer) (op : Op) : Prop :=
  op.apply (ofBuffer b) = .error .lengthError ∨
    ∃ b', op.apply (ofBuffer b) = .ok (op.answer b.readable, ofBuffer b') ∧ Settled b' ∧
      b'.readable = op.content b.readerIndex b.readable ∧ op.demanded ≤ b'.writableBytes

section Performs

variable {b : Buffer} (hb : Settled b)
include hb

lemma performs_append {data : Bytes} (hdata : data.length ≤ maxSize) :
    Performs b (.append data) := by
  simp only [Performs, Op.apply]
  rw [append_ofBuffer hb hdata]
  by_cases hx : Exceeds b data.length
  · rw [if_pos hx]
    exact .inl rfl
  · rw [if_neg hx]
    exact .inr ⟨_, rfl, settled_append hb hx, readable_append b data, Nat.zero_le _⟩

lemma performs_prepend (data : Bytes) : Performs b (.prepend data) := by
  simp only [Performs, Op.apply]
  rw [prepend_ofBuffer]
  refine .inr ⟨_, rfl, settled_prepend hb data, ?_, Nat.zero_le _⟩
  by_cases h : data.length ≤ b.readerIndex
  · rw [readable_prepend h, Op.content, if_pos h]
  · have h' : data.length > b.prependableBytes := not_le.mp h
    rw [Op.content, if_neg h, Buffer.prepend, dif_pos h']

lemma performs_retrieve (len : UInt64) : Performs b (.retrieve len) := by
  simp only [Performs, Op.apply]
  rw [retrieve_ofBuffer hb]
  refine .inr ⟨_, rfl, settled_retrieve hb _, ?_, Nat.zero_le _⟩
  rw [readable_retrieve, Op.content]
  rcases Nat.le_total len.toNat b.readable.length with h | h
  · rw [min_eq_left h]
  · rw [min_eq_right h, List.drop_length, List.drop_eq_nil_of_le h]

lemma performs_retrieveAsString {len : UInt64} (h : len.toNat ≤ b.readableBytes) :
    Performs b (.retrieveAsString len) := by
  simp only [Performs, Op.apply]
  rw [retrieveAsString_ofBuffer hb h]
  exact .inr ⟨_, rfl, settled_retrieve hb _, readable_retrieve b _, Nat.zero_le _⟩

lemma performs_retrieveAllAsString : Performs b .retrieveAllAsString := by
  simp only [Performs, Op.apply]
  rw [MachineBuffer.retrieveAllAsString, readableBytes_ofBuffer hb,
    retrieveAsString_ofBuffer hb le_rfl]
  refine .inr ⟨b.retrieve b.readableBytes, ?_, settled_retrieve hb _, ?_, Nat.zero_le _⟩
  · rw [← readable_length, List.take_length, Op.answer]
  · rw [readable_retrieve, ← readable_length, List.drop_length, Op.content]

lemma performs_ensureWritableBytes {len : UInt64} (hfit : b.writerIndex + len.toNat < 2 ^ 64) :
    Performs b (.ensureWritableBytes len) := by
  simp only [Performs, Op.apply]
  rw [ensureWritableBytes_ofBuffer hb hfit]
  by_cases hx : Exceeds b len.toNat
  · rw [if_pos hx]
    exact .inl rfl
  · rw [if_neg hx]
    exact .inr ⟨_, rfl, settled_ensureWritableBytes hb hx, readable_ensureWritableBytes b _,
      b.writableBytes_ensureWritableBytes _⟩

lemma performs_write {data : Bytes} (h : data.length ≤ b.writableBytes) :
    Performs b (.write data) := by
  simp only [Performs, Op.apply]
  rw [write_ofBuffer hb h]
  exact .inr ⟨_, rfl, settled_hasWritten (settled_storeAtWriter hb h) _,
    readable_written b data h _, Nat.zero_le _⟩

lemma performs_readFd {result : Option Bytes} (h : (Op.readFd result).Possible (ofBuffer b)) :
    Performs b (.readFd result) := by
  simp only [Performs, Op.apply]
  cases result with
  | none => exact .inr ⟨b, rfl, hb, rfl, Nat.zero_le _⟩
  | some data =>
    have hdata : data.length ≤ maxSize := by
      have hmax := hb.length_le
      simp only [Op.Possible, writableBytes_ofBuffer hb, Buffer.writableBytes, extraSize] at h
      unfold maxSize at hmax ⊢
      split_ifs at h <;> omega
    rcases readFd_ofBuffer hb hdata with hread | ⟨hread, hsettled⟩
    · rw [hread]
      exact .inl rfl
    · rw [hread]
      exact .inr ⟨_, rfl, hsettled, readable_readFd b data, Nat.zero_le _⟩

/-- As long as no demanded room wraps around, every operation does to the bytes what the byte
sequence says. -/
theorem performs {op : Op} (hpossible : op.Possible (ofBuffer b))
    (hwrap : ∀ len, op = .ensureWritableBytes len → b.writerIndex + len.toNat < 2 ^ 64) :
    Performs b op := by
  cases op with
  | append data => exact performs_append hb hpossible
  | prepend data => exact performs_prepend hb data
  | retrieve len => exact performs_retrieve hb len
  | retrieveAll =>
    exact .inr ⟨b.retrieveAll, rfl, settled_retrieveAll hb, readable_retrieveAll b, Nat.zero_le _⟩
  | retrieveAllAsString => exact performs_retrieveAllAsString hb
  | retrieveAsString len =>
    refine performs_retrieveAsString hb ?_
    rwa [Op.Possible, readableBytes_ofBuffer hb] at hpossible
  | ensureWritableBytes len => exact performs_ensureWritableBytes hb (hwrap len rfl)
  | write data =>
    refine performs_write hb ?_
    rwa [Op.Possible, writableBytes_ofBuffer hb] at hpossible
  | readFd result => exact performs_readFd hb hpossible

/-- Where the end of the demanded room wraps around, the vector shrinks below the writer index, or
nothing is gained by a move. -/
theorem not_ensured {len : ℕ} (hlen : len < 2 ^ 64) (hwrap : 2 ^ 64 ≤ b.writerIndex + len)
    {m : MachineBuffer} (h : (ofBuffer b).ensureWritableBytes len = .ok m) :
    ¬ (m.writerIndex ≤ m.buf.length ∧ len ≤ m.writableBytes) := by
  obtain ⟨h1, h2, h3⟩ := indices_lt hb
  have hsize : toSizeT ((ofBuffer b).writerIndex + len) < b.writerIndex := by
    simp only [ofBuffer, toSizeT]
    omega
  have hshort : (ofBuffer b).writableBytes < len := by
    rw [writableBytes_ofBuffer hb, Buffer.writableBytes]
    omega
  rw [MachineBuffer.ensureWritableBytes, if_pos hshort, MachineBuffer.makeSpace] at h
  generalize toSizeT ((ofBuffer b).writerIndex + len) = size at h hsize
  dsimp only at h
  rintro ⟨horder, hroom⟩
  split_ifs at h with hgrow hmax
  · rw [← Except.ok.inj h] at horder
    simp only [resize_length, ofBuffer] at horder
    exact absurd horder (not_le.mpr hsize)
  · rw [← Except.ok.inj h] at horder hroom
    simp only [MachineBuffer.writableBytes, forwardCopy_length, ofBuffer, toSizeT] at horder hroom
    omega

end Performs

/-- The buffer is a settled one, and the byte sequence is what it holds. -/
def Sound (s : State) : Prop :=
  ∃ b : Buffer, Settled b ∧ s.buffer = ofBuffer b ∧ s.content = b.readable

/-- What a step takes for granted, and the three ways in which its operation can end. -/
theorem step_cases {s t : State} {op : Op} (h : step s op = some t) :
    op.Possible s.buffer ∧
      ((∃ returned b, op.apply s.buffer = .ok (returned, b) ∧
          t = { buffer := b
                content := op.content s.buffer.prependableBytes s.content
                returned := returned
                expected := op.answer s.content
                demanded := op.demanded
                undefined := false }) ∨
        op.apply s.buffer = .error .undefined ∧ t = { s with undefined := true }) := by
  unfold step at h
  split_ifs at h with hpossible
  refine ⟨hpossible.2, ?_⟩
  cases happly : op.apply s.buffer with
  | ok r =>
    rw [happly] at h
    exact .inl ⟨r.1, r.2, rfl, (Option.some.inj h).symm⟩
  | error fault =>
    rw [happly] at h
    cases fault with
    | lengthError => cases h
    | undefined => exact .inr ⟨rfl, (Option.some.inj h).symm⟩

theorem step_refines {s t : State} {op : Op} (hs : Sound s) (h : step s op = some t)
    (hwrap : NoWrap s op) : Refines t ∧ Sound t := by
  obtain ⟨b, hb, hbuffer, hcontent⟩ := hs
  obtain ⟨hpossible, hcases⟩ := step_cases h
  rw [hbuffer] at hpossible hcases
  have hfit : ∀ len, op = .ensureWritableBytes len → b.writerIndex + len.toNat < 2 ^ 64 := by
    intro len hop
    have hlen := hwrap len hop
    rwa [hbuffer] at hlen
  rcases performs hb hpossible hfit with hthrow | ⟨b', happly, hb', hread, hroom⟩
  · rcases hcases with ⟨returned, m, hok, -⟩ | ⟨hundefined, -⟩
    · rw [hthrow] at hok
      cases hok
    · rw [hthrow] at hundefined
      cases hundefined
  · rcases hcases with ⟨returned, m, hok, rfl⟩ | ⟨hundefined, -⟩
    · rw [happly, Except.ok.injEq, Prod.mk.injEq] at hok
      obtain ⟨rfl, rfl⟩ := hok
      have hqueue : op.content (ofBuffer b).prependableBytes s.content = b'.readable := by
        rw [hread, hcontent]
        rfl
      refine ⟨⟨rfl, b'.reader_le_writer, b'.writer_le_size, hqueue.symm, ?_, ?_⟩,
        b', hb', rfl, hqueue⟩
      · rw [hcontent]
      · rw [writableBytes_ofBuffer hb']
        exact hroom
    · rw [happly] at hundefined
      cases hundefined

theorem not_refines_of_wrap {s t : State} {op : Op} (hs : Sound s) (h : step s op = some t)
    (hwrap : ¬ NoWrap s op) : ¬ Refines t := by
  obtain ⟨b, hb, hbuffer, -⟩ := hs
  obtain ⟨-, hcases⟩ := step_cases h
  simp only [NoWrap, not_forall, not_lt] at hwrap
  obtain ⟨len, rfl, hlen⟩ := hwrap
  rw [hbuffer] at hcases hlen
  intro hrefines
  rcases hcases with ⟨returned, m, hok, rfl⟩ | ⟨-, rfl⟩
  · simp only [Op.apply] at hok
    cases hensure : (ofBuffer b).ensureWritableBytes len.toNat with
    | error fault =>
      rw [hensure] at hok
      cases hok
    | ok m' =>
      rw [hensure, Except.map, Except.ok.injEq, Prod.mk.injEq] at hok
      obtain ⟨-, rfl⟩ := hok
      exact not_ensured hb len.toNat_lt hlen hensure
        ⟨hrefines.writer_le_size, hrefines.demanded⟩
  · exact absurd hrefines.defined (by simp)

/-- Without a wrap the constructor gives an empty byte queue. -/
lemma start_sound {initialSize : UInt64} {s : State} (h : start initialSize = some s)
    (hfit : kCheapPrepend + initialSize.toNat < 2 ^ 64) : Refines s ∧ Sound s := by
  unfold start at h
  cases hnew : MachineBuffer.new initialSize.toNat with
  | error fault =>
    rw [hnew] at h
    cases h
  | ok m =>
    rw [hnew] at h
    cases h
    obtain ⟨rfl, hsettled⟩ := ofBuffer_new hfit hnew
    have hempty := readable_new initialSize.toNat
    generalize Buffer.new initialSize.toNat = b at hsettled hempty
    exact ⟨⟨rfl, b.reader_le_writer, b.writer_le_size, hempty, rfl, Nat.zero_le _⟩,
      b, hsettled, rfl, hempty.symm⟩

lemma not_refines_start {initialSize : UInt64} {s : State} (h : start initialSize = some s)
    (hwrap : ¬ kCheapPrepend + initialSize.toNat < 2 ^ 64) : ¬ Refines s := by
  unfold start at h
  cases hnew : MachineBuffer.new initialSize.toNat with
  | error fault =>
    rw [hnew] at h
    cases h
  | ok m =>
    rw [hnew] at h
    cases h
    intro hrefines
    have hshort := new_wrapped initialSize.toNat_lt (not_lt.mp hwrap) hnew
    exact absurd hrefines.writer_le_size (not_le.mpr hshort)

/-- From any initial size, and for every run of operations: the indices stay in order, the buffer
holds the byte sequence, every demanded room is there, no access leaves the vector and no copy
runs onto its own source, if and only if neither the size of the first vector nor the end of
the room demanded by an `ensureWritableBytes` wraps around. -/
theorem refines_iff_noWrap (initialSize : UInt64) (ops : List Op) {s : State}
    (h : start initialSize = some s) :
    Always step Refines s ops ↔
      kCheapPrepend + initialSize.toNat < 2 ^ 64 ∧ Guarded step NoWrap s ops := by
  by_cases hfit : kCheapPrepend + initialSize.toNat < 2 ^ 64
  swap
  · refine iff_of_false ?_ fun hboth => hfit hboth.1
    intro halways
    exact not_refines_start h hfit halways.start
  obtain ⟨hrefines, hsound⟩ := start_sound h hfit
  rw [and_iff_right hfit]
  refine always_iff_guarded_of_invariant (Q := Sound) ?_ hrefines hsound ops
  intro s op t _ hs hstep
  by_cases hwrap : NoWrap s op
  · obtain ⟨hrefines, hsound⟩ := step_refines hs hstep hwrap
    exact ⟨iff_of_true hrefines hwrap, fun _ => hsound⟩
  · have hbad := not_refines_of_wrap hs hstep hwrap
    exact ⟨iff_of_false hbad hwrap, fun hrefines => absurd hrefines hbad⟩

/-- A few operations of the buffer test, and growth after a prepend. -/
theorem refines_iff_noWrap_small : ∃ s, start 4 = some s ∧
    Always step Refines s [.append [1, 2], .prepend [0], .append [3, 4, 5], .retrieve 2] := by
  refine ⟨_, rfl, (refines_iff_noWrap 4 _ rfl).mpr ⟨by decide, ?_⟩⟩
  apply guarded_of_forall
  intro op hop s len hlen
  subst hlen
  simp at hop

/-- One byte, then room for `2 ^ 64 - 9` more: the vector is resized to nothing. -/
theorem not_refines_wrapped :
    ¬ ∀ (initialSize : UInt64) (ops : List Op) (s : State), start initialSize = some s →
      Always step Refines s ops := by
  intro h
  have hrun : run step ⟨⟨[0, 0, 0, 0, 0, 0, 0, 0], 8, 8⟩, [], [], [], 0, false⟩
      [.append [7], .ensureWritableBytes (2 ^ 64 - 9)] =
        some ⟨⟨[], 8, 9⟩, [7], [], [], 2 ^ 64 - 9, false⟩ := by decide +kernel
  have hrefines := always_run (h 0 _ _ (by decide +kernel)) hrun
  exact absurd hrefines.writer_le_size (by decide)

end RpcMuduo.ByteQueue
