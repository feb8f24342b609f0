import RpcMuduo.ByteQueue
import RpcMuduo.CodecRoundTrip

/-!
# Encoding into a buffer with a past

`fillEmptyBuffer` on machine integers, applied to any buffer that operations have emptied: the
reserve is back, so the size finds its room in front of the frame.
-/
namespace RpcMuduo.FrameEncoding
open Adler32 CInt Run MachineBuffer ByteQueue
open ProtobufCodecLite (kChecksumLen checksum)
open RpcMeta (RpcMetaMessage testMessage)

/-- The room asked for is an `int` sum, the payload is stored through `beginWrite()`. -/
def serializeToBuffer (codec : ProtobufCodecLite) (message : RpcMetaMessage) (b : MachineBuffer) :
    Except BufferFault MachineBuffer :=
  let payload := codec.runtime.serialize message
  (b.ensureWritableBytes (toSizeT (toInt32 (payload.length + kChecksumLen)))).bind
    fun b => b.write payload

/-- The end of `fillEmptyBuffer`: the checksum behind tag and payload, the size in front. -/
def sealFrame (b : MachineBuffer) : Except BufferFault MachineBuffer :=
  let checkSum := checksum (b.buf.drop b.readerIndex) (toInt32 b.readableBytes)
  (b.append (hostToNetwork32 checkSum)).bind
    fun b => b.prepend (hostToNetwork32 (toInt32 b.readableBytes))

def fillEmptyBuffer (codec : ProtobufCodecLite) (message : RpcMetaMessage) (b : MachineBuffer) :
    Except BufferFault MachineBuffer :=
  ((b.append codec.tag).bind (serializeToBuffer codec message)).bind sealFrame

/-- A settled buffer whose reserve is whole, with room to grow far beyond any frame. -/
structure Reserved (b : Buffer) (body : Bytes) : Prop where
  settled : Settled b
  reader_eq : b.readerIndex = Buffer.kCheapPrepend
  readable_eq : b.readable = body

section Reserved

variable {b : Buffer} {body : Bytes}

lemma Reserved.writer_eq (h : Reserved b body) :
    b.writerIndex = Buffer.kCheapPrepend + body.length := by
  have h1 := b.reader_le_writer
  have hlen : b.readableBytes = body.length := by rw [← Buffer.readable_length, h.readable_eq]
  rw [Buffer.readableBytes, h.reader_eq] at hlen
  rw [h.reader_eq] at h1
  omega

lemma Reserved.roomy (h : Reserved b body) (len : ℕ) (hlen : body.length + len < 2 ^ 32) :
    ¬ Exceeds b len ∧ b.writerIndex + len < 2 ^ 64 := by
  have hwriter := h.writer_eq
  simp only [Buffer.kCheapPrepend] at hwriter
  refine ⟨?_, by omega⟩
  rintro ⟨-, hbig⟩
  unfold maxSize at hbig
  omega

/-- A buffer whose reader index is at the reserve is never moved. -/
lemma reader_ensureWritableBytes (hr : b.readerIndex = Buffer.kCheapPrepend) (len : ℕ) :
    (b.ensureWritableBytes len).readerIndex = Buffer.kCheapPrepend := by
  unfold Buffer.ensureWritableBytes
  split
  · unfold Buffer.makeSpace
    split
    · exact hr
    · rfl
  · exact hr

lemma Reserved.append (h : Reserved b body) (data : Bytes)
    (hlen : body.length + data.length < 2 ^ 32) :
    (ofBuffer b).append data = .ok (ofBuffer (b.append data)) ∧
      Reserved (b.append data) (body ++ data) := by
  obtain ⟨hroomy, -⟩ := h.roomy _ hlen
  have hdata : data.length ≤ maxSize := by
    unfold maxSize
    omega
  refine ⟨?_, settled_append h.settled hroomy, reader_ensureWritableBytes h.reader_eq _, ?_⟩
  · rw [append_ofBuffer h.settled hdata, if_neg hroomy]
  · rw [Buffer.readable_append, h.readable_eq]

lemma Reserved.serialize (h : Reserved b body) {codec : ProtobufCodecLite}
    {message : RpcMetaMessage}
    (hlen : body.length + (codec.runtime.serialize message).length + kChecksumLen < 2 ^ 31) :
    ∃ b', serializeToBuffer codec message (ofBuffer b) = .ok (ofBuffer b') ∧
      Reserved b' (body ++ codec.runtime.serialize message) := by
  simp only [kChecksumLen] at hlen
  unfold serializeToBuffer
  dsimp only
  generalize codec.runtime.serialize message = payload at hlen ⊢
  have hsize : toSizeT (toInt32 (payload.length + kChecksumLen)) = payload.length + 4 := by
    rw [kChecksumLen, toInt32_of_fits (by omega) (by omega), toSizeT]
    omega
  obtain ⟨hroomy, hfit⟩ := h.roomy (payload.length + 4) (by omega)
  have hroom : payload.length ≤ (b.ensureWritableBytes (payload.length + 4)).writableBytes :=
    (Nat.le_add_right _ _).trans (b.writableBytes_ensureWritableBytes _)
  have hsettled := settled_ensureWritableBytes h.settled hroomy
  have hstored := settled_storeAtWriter hsettled hroom
  have hroom' := hroom.trans_eq (Buffer.writableBytes_storeAtWriter _ payload hroom).symm
  rw [hsize, ensureWritableBytes_ofBuffer h.settled hfit, if_neg hroomy, Except.bind,
    write_ofBuffer hsettled hroom]
  refine ⟨_, rfl, settled_hasWritten hstored hroom', reader_ensureWritableBytes h.reader_eq _, ?_⟩
  rw [Buffer.readable_written, Buffer.readable_ensureWritableBytes, h.readable_eq]

lemma Reserved.seal (h : Reserved b body) (hlen : body.length + kChecksumLen < 2 ^ 31) :
    sealFrame (ofBuffer b) = .ok (ofBuffer (ProtobufCodecLite.sealFrame b)) := by
  simp only [kChecksumLen] at hlen
  have hread := readableBytes_ofBuffer h.settled
  have hsum : ∀ sum : ℤ, (ofBuffer b).append (hostToNetwork32 sum) =
      .ok (ofBuffer (b.append (hostToNetwork32 sum))) ∧
      (ofBuffer (b.append (hostToNetwork32 sum))).readableBytes =
        (b.append (hostToNetwork32 sum)).readableBytes := by
    intro sum
    obtain ⟨happend, hreserved⟩ := h.append (hostToNetwork32 sum)
      (by rw [ProtobufCodecLite.hostToNetwork32_length]; omega)
    exact ⟨happend, readableBytes_ofBuffer hreserved.settled⟩
  unfold sealFrame ProtobufCodecLite.sealFrame
  dsimp only
  rw [hread, (hsum _).1, Except.bind, (hsum _).2, prepend_ofBuffer]
  rfl

end Reserved

/-- The frame as bytes: the size of what follows, the tag, the payload and their checksum. -/
def wire (codec : ProtobufCodecLite) (message : RpcMetaMessage) : Bytes :=
  let payload := codec.runtime.serialize message
  BigEndian.encode 4 (codec.tag.length + payload.length + 4) ++ codec.tag ++ payload ++
    BigEndian.encode 4 (adler32 (codec.tag ++ payload))

/-- In a buffer that is empty now, `fillEmptyBuffer` leaves exactly the frame of any message whose
size an `int32_t` holds. -/
def Complete (s : State) : Prop :=
  s.buffer.readableBytes = 0 →
    s.buffer.readerIndex = Buffer.kCheapPrepend ∧
      ∀ (codec : ProtobufCodecLite) (message : RpcMetaMessage),
        codec.tag.length + (codec.runtime.serialize message).length + kChecksumLen < 2 ^ 31 →
        ∃ b, fillEmptyBuffer codec message s.buffer = .ok b ∧ b.readable = wire codec message

lemma frame_eq_wire {codec : ProtobufCodecLite} {message : RpcMetaMessage}
    (hsize : codec.tag.length + (codec.runtime.serialize message).length + kChecksumLen < 2 ^ 31) :
    codec.frame message = wire codec message := by
  simp only [kChecksumLen] at hsize
  have hlt := adler32_lt (codec.tag ++ codec.runtime.serialize message)
  have hlen : toUInt32 (((codec.tag ++ codec.runtime.serialize message).length : ℤ) +
      kChecksumLen) = codec.tag.length + (codec.runtime.serialize message).length + 4 := by
    rw [List.length_append, kChecksumLen, toUInt32]
    omega
  have hsum : toUInt32 (toInt32 (adler32 (codec.tag ++ codec.runtime.serialize message))) =
      adler32 (codec.tag ++ codec.runtime.serialize message) := by
    unfold toUInt32 toInt32
    omega
  simp only [ProtobufCodecLite.frame, wire, hostToNetwork32, hlen, hsum, List.append_assoc]

/-- Encoding into a settled buffer without readable bytes. -/
theorem fillEmptyBuffer_settled {b : Buffer} (hb : Settled b) (hempty : b.readableBytes = 0)
    (codec : ProtobufCodecLite) (message : RpcMetaMessage)
    (hsize : codec.tag.length + (codec.runtime.serialize message).length + kChecksumLen < 2 ^ 31) :
    ∃ b', fillEmptyBuffer codec message (ofBuffer b) = .ok (ofBuffer b') ∧
      b'.readable = codec.frame message := by
  have hint := hsize
  simp only [kChecksumLen] at hint
  have hreserved : Reserved b [] :=
    ⟨hb, hb.reserve_of_empty hempty, (Buffer.readable_eq_nil_iff b).mpr hempty⟩
  obtain ⟨htag, htagged⟩ := hreserved.append codec.tag
    (by simp only [List.length_nil]; omega)
  rw [List.nil_append] at htagged
  obtain ⟨c, hpayload, hbody⟩ := htagged.serialize hsize
  have hlen : (codec.tag ++ codec.runtime.serialize message).length + kChecksumLen < 2 ^ 31 := by
    rw [List.length_append]
    exact_mod_cast hsize
  refine ⟨ProtobufCodecLite.sealFrame c, ?_, ?_⟩
  · rw [fillEmptyBuffer, htag, Except.bind, hpayload, Except.bind, hbody.seal hlen]
  · exact ProtobufCodecLite.readable_sealFrame hbody.readable_eq hbody.reader_eq.ge hlen

/-- In every state of a run in which nothing wraps around: a buffer without readable bytes has its
reserve, and encoding into it is complete. -/
theorem complete_of_noWrap (initialSize : UInt64) (ops : List Op) {s : State}
    (h : start initialSize = some s) (hfit : Buffer.kCheapPrepend + initialSize.toNat < 2 ^ 64)
    (hwrap : Guarded step NoWrap s ops) : Always step Complete s ops := by
  refine always_of_guarded (P := Sound) ?_ ?_ (start_sound h hfit).2 hwrap
  · rintro s ⟨b, hb, hbuffer, -⟩ hempty
    rw [hbuffer, readableBytes_ofBuffer hb] at hempty
    rw [hbuffer]
    refine ⟨hb.reserve_of_empty hempty, ?_⟩
    intro codec message hsize
    obtain ⟨b', hfill, hread⟩ := fillEmptyBuffer_settled hb hempty codec message hsize
    exact ⟨ofBuffer b', hfill, hread.trans (frame_eq_wire hsize)⟩
  · intro s op t hs hG hstep
    exact (step_refines hs hstep hG).2

/-- After a prepend and everything taken out again. -/
theorem complete_of_noWrap_emptied : ∃ s, start 4 = some s ∧
    Always step Complete s [.append [1, 2], .prepend [0, 0, 0], .retrieve 2, .retrieveAll] := by
  refine ⟨_, rfl, complete_of_noWrap 4 _ rfl (by decide) ?_⟩
  apply guarded_of_forall
  intro op hop s len hlen
  subst hlen
  simp at hop

/-- One byte, room for `2 ^ 64 - 9` more, and everything taken out: the vector is empty, and the
tag is stored outside it. -/
theorem not_complete_wrapped :
    ¬ ∀ (initialSize : UInt64) (ops : List Op) (s : State), start initialSize = some s →
      Always step Complete s ops := by
  intro h
  have hrun : run step ⟨⟨[0, 0, 0, 0, 0, 0, 0, 0], 8, 8⟩, [], [], [], 0, false⟩
      [.append [7], .ensureWritableBytes (2 ^ 64 - 9), .retrieveAll] =
        some ⟨⟨[], 8, 8⟩, [], [], [], 0, false⟩ := by decide +kernel
  have hcomplete := always_run (h 0 _ _ (by decide +kernel)) hrun
  obtain ⟨-, hfill⟩ := hcomplete (by decide +kernel)
  obtain ⟨b, hok, -⟩ := hfill CodecRoundTrip.testCodec testMessage (by decide +kernel)
  have hfault : fillEmptyBuffer CodecRoundTrip.testCodec testMessage ⟨[], 8, 8⟩ =
      .error .undefined := by decide +kernel
  rw [hfault] at hok
  cases hok

end RpcMuduo.FrameEncoding
