import RpcMuduo.FrameGrammar

/-!
# Corrupted frames

A single byte changed behind the size of a frame leaves a checksum that does not match, because
Adler-32 tells any two byte strings apart that differ in one byte.
-/
namespace RpcMuduo.CorruptedFrame
open Adler32 CInt ProtobufCodecLite CodecRoundTrip FrameGrammar
open RpcMeta (RpcMetaMessage testMessage)

/-- What follows the size of a frame: tag and payload, then their checksum. -/
def sealed (body : Bytes) : Bytes := body ++ hostToNetwork32 (toInt32 (adler32 body))

/-- A changed byte of the stored checksum gives another number. -/
lemma checksum_changed {body pre post : Bytes} {x y : UInt8}
    (h : hostToNetwork32 (toInt32 (adler32 body)) = pre ++ x :: post) (hne : x ≠ y) :
    (pre ++ y :: post).length = 4 ∧ BigEndian.decode (pre ++ y :: post) ≠ adler32 body := by
  have hlen : (pre ++ x :: post).length = (pre ++ y :: post).length := by
    simp only [List.length_append, List.length_cons]
  refine ⟨?_, ?_⟩
  · rw [← hlen, ← h, hostToNetwork32_length]
  · rw [← decode_stored body, h]
    intro heq
    have hbytes := BigEndian.decode_inj hlen heq.symm
    simp only [List.append_cancel_left_eq, List.cons.injEq, and_true] at hbytes
    exact hne hbytes

/-- One changed byte in what a checksum seals, or in the checksum itself, and the two no longer
match. -/
theorem sealed_changed {body pre post : Bytes} {x y : UInt8} (h : sealed body = pre ++ x :: post)
    (hne : x ≠ y) : ∃ body' sum, pre ++ y :: post = body' ++ sum ∧ body'.length = body.length ∧
      sum.length = 4 ∧ BigEndian.decode sum ≠ adler32 body' := by
  rw [sealed] at h
  rcases List.append_eq_append_iff.mp h with ⟨mid, rfl, hsum⟩ | ⟨mid, rfl, hmid⟩
  · obtain ⟨hlen, hbad⟩ := checksum_changed hsum hne
    exact ⟨body, mid ++ y :: post, List.append_assoc _ _ _, rfl, hlen, hbad⟩
  · rcases List.cons_eq_append_iff.mp hmid with ⟨rfl, hsum⟩ | ⟨mid, rfl, rfl⟩
    · obtain ⟨hlen, hbad⟩ := checksum_changed (hsum.trans (List.nil_append _).symm) hne
      exact ⟨pre ++ [], y :: post, by simp, rfl, hlen, hbad⟩
    · refine ⟨pre ++ y :: mid, hostToNetwork32 (toInt32 (adler32 (pre ++ x :: mid))), by simp,
        by simp, hostToNetwork32_length _, ?_⟩
      rw [decode_stored]
      exact adler32_ne pre mid hne

/-- A frame with one byte changed behind its size: the size is the old one, and what follows it
is as long as before but does not match its checksum. -/
theorem frame_changed {codec : ProtobufCodecLite} {message : RpcMetaMessage}
    (hsize : codec.tag.length + (codec.runtime.serialize message).length + kChecksumLen
      ≤ kMaxMessageLen) {i : ℕ} {byte : UInt8} (h4 : 4 ≤ i)
    (hi : i < (codec.frame message).length) (hne : (codec.frame message)[i]? ≠ some byte) :
    ∃ head body sum, (codec.frame message).set i byte = head ++ (body ++ sum) ∧
      Announced codec head (body ++ sum) ∧ sum.length = 4 ∧
      BigEndian.decode sum ≠ adler32 body := by
  have hframe : codec.frame message =
      hostToNetwork32 (((codec.tag ++ codec.runtime.serialize message).length : ℤ) + kChecksumLen)
        ++ sealed (codec.tag ++ codec.runtime.serialize message) := rfl
  rw [hframe] at hi hne ⊢
  have hlen : (codec.tag ++ codec.runtime.serialize message).length =
      codec.tag.length + (codec.runtime.serialize message).length := List.length_append
  generalize codec.tag ++ codec.runtime.serialize message = content at hi hne hlen ⊢
  have hhead := hostToNetwork32_length ((content.length : ℤ) + kChecksumLen)
  have hwire := BigEndian.decode_encode 4 (toUInt32 ((content.length : ℤ) + kChecksumLen))
  rw [← hostToNetwork32] at hwire
  generalize hostToNetwork32 ((content.length : ℤ) + kChecksumLen) = head at hi hne hhead hwire ⊢
  rw [List.length_append, hhead] at hi
  rw [List.getElem?_append_right (by omega), List.getElem?_eq_getElem (by omega)] at hne
  rw [List.set_append_right _ _ (by omega), List.set_eq_take_append_cons_drop, if_pos (by omega)]
  have hsplit : sealed content = (sealed content).take (i - head.length) ++
      (sealed content)[i - head.length] :: (sealed content).drop (i - head.length + 1) := by
    rw [List.getElem_cons_drop, List.take_append_drop]
  obtain ⟨body, sum, heq, hbody, hsum, hbad⟩ := sealed_changed hsplit
    (fun h => hne (congrArg some h))
  refine ⟨head, body, sum, by rw [heq], ⟨hhead, ?_, ?_, ?_⟩, hsum, hbad⟩
  · rw [hwire, List.length_append, hbody, hsum]
    unfold toUInt32 kChecksumLen
    simp only [kChecksumLen, kMaxMessageLen] at hsize
    omega
  · rw [List.length_append, hbody, hsum, kChecksumLen]
    omega
  · rw [List.length_append, hbody, hsum, hlen]
    exact_mod_cast hsize

/-- Changing any byte of the tag, the payload or the checksum of a frame to another value makes
`parse` return `kCheckSumError`, and `onMessage` report it and deliver nothing for that frame,
whatever was received after it. -/
theorem parse_corrupted (codec : ProtobufCodecLite) (message : RpcMetaMessage) {σ : Type*}
    (messageCallback : σ → RpcMetaMessage → σ) (errorCallback : σ → ErrorCode → σ)
    (hsize : codec.tag.length + (codec.runtime.serialize message).length + kChecksumLen
      ≤ kMaxMessageLen)
    {buf : Buffer} (hempty : buf.readable = [])
    (hreserve : Buffer.kCheapPrepend ≤ buf.readerIndex) :
    ∃ framed, codec.fillEmptyBuffer buf message = .ok framed ∧
      ∀ (i : ℕ) (byte : UInt8), 4 ≤ i → i < framed.readable.length →
        framed.readable[i]? ≠ some byte → ∀ ys : Bytes,
        codec.parse ((framed.readable.set i byte ++ ys).drop 4)
            (networkToHost32 ((framed.readable.set i byte ++ ys).take 4)) =
          .error .kCheckSumError ∧
        ∀ (received : Buffer) (s : σ), received.readable = framed.readable.set i byte ++ ys →
          codec.onMessage messageCallback errorCallback received s =
            some (received, errorCallback s .kCheckSumError) := by
  have hint : codec.tag.length + (codec.runtime.serialize message).length + kChecksumLen
      < 2 ^ 31 := by
    simp only [kMaxMessageLen] at hsize
    omega
  have htag : codec.TagInt := by
    unfold TagInt
    omega
  obtain ⟨framed, hfill, hread⟩ := codec.fillEmptyBuffer_ok message hempty hreserve hint
  refine ⟨framed, hfill, ?_⟩
  rw [hread]
  intro i byte h4 hi hne ys
  obtain ⟨head, body, sum, heq, hann, hsum, hbad⟩ := frame_changed hsize h4 hi hne
  rw [heq, List.append_assoc]
  refine ⟨?_, ?_⟩
  · have hparse := hann.parse_eq hsum ys
    rw [if_neg hbad] at hparse
    rw [List.drop_left' hann.head_length, List.take_left' hann.head_length,
      hann.networkToHost32_eq, hparse]
  · intro received s hreceived
    apply onMessage_fail messageCallback errorCallback
    rw [onMessageTurn_eq htag, hreceived, next_remainder (.checksum ys hann hsum hbad),
      Option.elim_some]

theorem parse_corrupted_testMessage :
    ∃ framed, testCodec.fillEmptyBuffer (Buffer.new Buffer.kInitialSize) testMessage = .ok framed ∧
      ∀ (i : ℕ) (byte : UInt8), 4 ≤ i → i < framed.readable.length →
        framed.readable[i]? ≠ some byte → ∀ received : Buffer,
          received.readable = framed.readable.set i byte →
          testCodec.onMessage Delivery.message Delivery.error received ⟨[], []⟩ =
            some (received, ⟨[], [.kCheckSumError]⟩) := by
  obtain ⟨framed, hfill, h⟩ := parse_corrupted testCodec testMessage Delivery.message Delivery.error
    (by decide +kernel) (Buffer.readable_new Buffer.kInitialSize) le_rfl
  refine ⟨framed, hfill, ?_⟩
  intro i byte h4 hi hne received hreceived
  exact (h i byte h4 hi hne []).2 received ⟨[], []⟩ (hreceived.trans (List.append_nil _).symm)

end RpcMuduo.CorruptedFrame
