import RpcMuduo.CodecRoundTrip

/-!
# The size limit on both sides

`onMessage` refuses sizes beyond `kMaxMessageLen`; `fillEmptyBuffer` does not look at the limit.
-/
namespace RpcMuduo.CodecRoundTrip
open CInt StreamDecoder ProtobufCodecLite Buffer
open RpcMeta (RpcMetaMessage Runtime testMessage)

/-- `send` emits nothing, or a frame whose size field is in the range that the receiver accepts,
gives the number of bytes that follow, and is not reported by `onMessage`. -/
def Agrees (codec : ProtobufCodecLite) (message : RpcMetaMessage) : Prop :=
  ∀ frame, codec.send message = .ok frame →
    codec.kMinMessageLen ≤ networkToHost32 (frame.take 4) ∧
    networkToHost32 (frame.take 4) ≤ kMaxMessageLen ∧
    kHeaderLen + networkToHost32 (frame.take 4) = frame.length ∧
    ∃ buf delivery,
      codec.onMessage Delivery.message Delivery.error ((Buffer.new kInitialSize).append frame)
        ⟨[], []⟩ = some (buf, delivery) ∧
      .kInvalidLength ∉ delivery.errors

/-- The frame fits the limit, or the payload is too large for `serializeToBuffer`. -/
def SizeFits (codec : ProtobufCodecLite) (message : RpcMetaMessage) : Prop :=
  codec.tag.length + (codec.runtime.serialize message).length + kChecksumLen ≤ kMaxMessageLen ∨
    2 ^ 31 ≤ (codec.runtime.serialize message).length + kChecksumLen

variable (codec : ProtobufCodecLite) (message : RpcMetaMessage)

lemma send_error (h : 2 ^ 31 ≤ (codec.runtime.serialize message).length + kChecksumLen) :
    codec.send message = .error .lengthError := by
  have hlarge := not_lt.mpr h
  rw [send, fillEmptyBuffer, serializeToBuffer, if_neg hlarge]
  rfl

/-- What `send` emits for any payload that it can serialize. -/
lemma send_wire (h : (codec.runtime.serialize message).length + kChecksumLen < 2 ^ 31) :
    ∃ rest, codec.send message = .ok (hostToNetwork32 (toInt32
        (codec.tag.length + (codec.runtime.serialize message).length + 4 : ℕ)) ++ rest) ∧
      rest.length = codec.tag.length + (codec.runtime.serialize message).length + 4 := by
  obtain ⟨b, hb, hread, hreserve⟩ := codec.serializeToBuffer_ok message
    (reserve_append codec.tag (b := Buffer.new kInitialSize) le_rfl) h
  rw [readable_append, readable_new, List.nil_append] at hread
  have hseal := readable_sealFrame_eq hreserve
  rw [hread, List.length_append] at hseal
  refine ⟨codec.tag ++ codec.runtime.serialize message ++
    hostToNetwork32 (checksum b.peek (toInt32 b.readableBytes)), ?_, ?_⟩
  · rw [send, fillEmptyBuffer, hb, Except.map, Except.map, retrieveAllAsString, retrieveAsString,
      peek_take le_rfl, ← readable_length, List.take_length, hseal]
  · simp only [List.length_append, hostToNetwork32_length]

lemma not_agrees (h : ¬ SizeFits codec message) : ¬ Agrees codec message := by
  intro hagrees
  simp only [SizeFits, not_or, not_le] at h
  obtain ⟨hlimit, hsmall⟩ := h
  obtain ⟨rest, hsend, hrest⟩ := send_wire codec message hsmall
  have hbounds := toInt32_bounds
    (codec.tag.length + (codec.runtime.serialize message).length + 4 : ℕ)
  have hagrees := hagrees _ hsend
  rw [List.take_left' (hostToNetwork32_length _),
    networkToHost32_hostToNetwork32 hbounds.1 hbounds.2, List.length_append,
    hostToNetwork32_length, hrest] at hagrees
  obtain ⟨-, hmax, hlen, -⟩ := hagrees
  simp only [kHeaderLen, kChecksumLen, kMaxMessageLen] at *
  omega

/-- A frame of the right size is not reported: at worst `parse` refuses what it holds. -/
lemma next_frame {rest : Bytes} {size : ℕ}
    (hrest : rest.length = size) (hmin : codec.tag.length + 4 ≤ size)
    (hmax : size ≤ kMaxMessageLen) :
    (∃ m, codec.next (hostToNetwork32 size ++ rest) =
      .item (hostToNetwork32 size ++ rest).length m) ∨
      ∃ e, codec.next (hostToNetwork32 size ++ rest) = .fail e ∧ e ≠ .kInvalidLength := by
  simp only [kMaxMessageLen] at hmax
  have hwire := networkToHost32_hostToNetwork32 (v := size) (by omega) (by omega)
  have hlength : (hostToNetwork32 size ++ rest).length = 4 + size := by
    rw [List.length_append, hostToNetwork32_length, hrest]
  have hbad : ¬ ((size : ℤ) > kMaxMessageLen ∨ (size : ℤ) < codec.tag.length + kChecksumLen) := by
    simp only [kMaxMessageLen, kChecksumLen]
    omega
  rw [next, if_neg (by omega)]
  simp only [List.take_left' (hostToNetwork32_length _), hwire, if_neg hbad]
  rw [if_neg (by omega)]
  cases hparse : codec.parse ((hostToNetwork32 size ++ rest).drop 4) size with
  | ok m => exact Or.inl ⟨m, by rw [hlength]; simp⟩
  | error e =>
    refine Or.inr ⟨e, rfl, ?_⟩
    intro heq
    exact parse_ne_kInvalidLength _ _ (heq ▸ hparse)

lemma agrees (htag : codec.TagFits) (h : SizeFits codec message) : Agrees codec message := by
  intro frame hframe
  rcases h with hlimit | hlarge
  · simp only [kMaxMessageLen, kChecksumLen] at hlimit
    obtain ⟨rest, hsend, hrest⟩ := send_wire codec message (by simp only [kChecksumLen]; omega)
    rw [hsend] at hframe
    obtain rfl := Except.ok.inj hframe
    have hfits : toInt32 (codec.tag.length + (codec.runtime.serialize message).length + 4 : ℕ) =
        (codec.tag.length + (codec.runtime.serialize message).length + 4 : ℕ) :=
      toInt32_of_fits (by omega) (by omega)
    rw [hfits] at hsend ⊢
    have hmin : codec.kMinMessageLen = codec.tag.length + 4 := kMinMessageLen_eq htag.tagInt
    rw [List.take_left' (hostToNetwork32_length _),
      networkToHost32_hostToNetwork32 (by omega) (by omega), List.length_append,
      hostToNetwork32_length, hrest, hmin]
    refine ⟨by omega, by simp only [kMaxMessageLen]; omega, by simp only [kHeaderLen]; omega, ?_⟩
    have hnext := next_frame codec hrest (by omega) (by simp only [kMaxMessageLen]; omega)
    generalize hostToNetwork32 (codec.tag.length + (codec.runtime.serialize message).length + 4 :
      ℕ) ++ rest = wire at hnext ⊢
    obtain ⟨buf, hrun, -⟩ := onMessage_drain Delivery.message Delivery.error htag.tagInt
      ((Buffer.new kInitialSize).append wire) ⟨[], []⟩
    rw [readable_append, readable_new, List.nil_append, deliver_eq_delivery] at hrun
    refine ⟨_, _, hrun, ?_⟩
    rcases hnext with ⟨m, hitem⟩ | ⟨e, hfail, hne⟩
    · have hrest : drain codec.decoder [] = ⟨[], none, []⟩ :=
        drain_more codec.decoder codec.decoder.next_nil
      rw [drain_item codec.decoder hitem, List.drop_length, hrest]
      simp [delivery]
    · rw [drain_fail codec.decoder hfail]
      simpa [delivery] using hne.symm
  · rw [send_error codec message hlarge] at hframe
    cases hframe

/-- Encoder and decoder agree on a message exactly when its frame keeps to the limit or its
payload is too large to be serialized. -/
theorem encoder_decoder_agree_iff (htag : codec.TagFits) :
    Agrees codec message ↔ SizeFits codec message := by
  constructor
  · intro hagrees
    by_contra h
    exact not_agrees codec message h hagrees
  · exact agrees codec message htag

theorem encoder_decoder_agree_testMessage :
    Agrees testCodec testMessage ↔ SizeFits testCodec testMessage :=
  encoder_decoder_agree_iff testCodec testMessage (by unfold TagFits; decide)

/-- The runtime on messages with a request of `kMaxMessageLen` bytes, with their wire format. -/
def largeRuntime : Runtime where
  serialize message :=
    [8, 1, 17, 2, 0, 0, 0, 0, 0, 0, 0, 42, 128, 128, 128, 32] ++ message.getRequest
  parseFromArray _ := none

lemma not_agrees_request {request : Bytes} (h : request.length = 2 ^ 26) :
    ¬ Agrees ⟨largeRuntime, testCodec.tag⟩ { testMessage with request := some request } := by
  apply not_agrees
  have hpayload : (largeRuntime.serialize { testMessage with request := some request }).length =
      16 + request.length := by
    simp only [largeRuntime, RpcMetaMessage.getRequest, Option.getD_some, List.length_append,
      List.length_cons, List.length_nil]
  rw [h] at hpayload
  simp only [SizeFits, hpayload, kMaxMessageLen, kChecksumLen]
  omega

theorem large_request_refused : ¬ Agrees ⟨largeRuntime, testCodec.tag⟩
    { testMessage with request := some (List.replicate (2 ^ 26) 120) } :=
  not_agrees_request List.length_replicate

end RpcMuduo.CodecRoundTrip
