import RpcMuduo.ProtobufCodecLite
import RpcMuduo.StreamDecoder

/-!
# The codec over a stream

`onMessage` on a buffer refines the incremental decoder of frames, and the frames of
`fillEmptyBuffer` are items of that decoder: a stream of frames is decoded to its messages
however it is cut.
-/
namespace RpcMuduo.ProtobufCodecLite
open Adler32 CInt RpcMeta StreamDecoder Buffer

variable (codec : ProtobufCodecLite)

/-- Tags for which some message fits the limit; longer ones can frame nothing. -/
def TagFits : Prop := codec.tag.length + kChecksumLen ≤ kMaxMessageLen

/-- Tags for which `kMinMessageLen`, an `int`, holds its value. -/
def TagInt : Prop := codec.tag.length + kChecksumLen < 2 ^ 31

lemma TagFits.tagInt {codec : ProtobufCodecLite} (h : codec.TagFits) : codec.TagInt := by
  unfold TagFits kMaxMessageLen at h
  unfold TagInt
  omega

/-- The frame of a message as the header documents it. -/
def frame (message : RpcMetaMessage) : Bytes :=
  let body := codec.tag ++ codec.runtime.serialize message
  hostToNetwork32 (body.length + kChecksumLen) ++
    (body ++ hostToNetwork32 (toInt32 (adler32 body)))

@[simp] theorem hostToNetwork32_length (v : ℤ) : (hostToNetwork32 v).length = 4 := by
  simp [hostToNetwork32]

/-- A 32-bit value survives the change to network order and back. -/
theorem networkToHost32_hostToNetwork32 {v : ℤ} (hlo : -2 ^ 31 ≤ v) (hhi : v < 2 ^ 31) :
    networkToHost32 (hostToNetwork32 v) = v := by
  rw [networkToHost32, hostToNetwork32, BigEndian.decode_encode]
  unfold toInt32 toUInt32
  omega

section Encode

theorem reserve_makeSpace {b : Buffer} {len : ℕ} (h : b.writableBytes < len)
    (hr : kCheapPrepend ≤ b.readerIndex) : kCheapPrepend ≤ (b.makeSpace len h).readerIndex := by
  unfold makeSpace
  split
  · exact hr
  · exact le_rfl

theorem reserve_ensureWritableBytes {b : Buffer} (len : ℕ) (hr : kCheapPrepend ≤ b.readerIndex) :
    kCheapPrepend ≤ (b.ensureWritableBytes len).readerIndex := by
  unfold ensureWritableBytes
  split
  · exact reserve_makeSpace _ hr
  · exact hr

theorem reserve_append {b : Buffer} (data : Bytes) (hr : kCheapPrepend ≤ b.readerIndex) :
    kCheapPrepend ≤ (b.append data).readerIndex :=
  reserve_ensureWritableBytes data.length hr

theorem serializeToBuffer_ok (message : RpcMetaMessage) {b : Buffer}
    (hr : kCheapPrepend ≤ b.readerIndex)
    (hsize : (codec.runtime.serialize message).length + kChecksumLen < 2 ^ 31) :
    ∃ b', codec.serializeToBuffer message b = .ok b' ∧
      b'.readable = b.readable ++ codec.runtime.serialize message ∧
      kCheapPrepend ≤ b'.readerIndex := by
  simp only [serializeToBuffer, hsize, ↓reduceIte]
  refine ⟨_, rfl, ?_, ?_⟩
  · rw [readable_written, readable_ensureWritableBytes]
  · exact reserve_ensureWritableBytes _ hr

/-- The checksum that both sides compute over the readable bytes of a buffer. -/
theorem checksum_readable {b : Buffer} (h : b.readableBytes < 2 ^ 31) :
    checksum b.peek (toInt32 b.readableBytes) = toInt32 (adler32 b.readable) := by
  have hlen : toUInt32 (toInt32 b.readableBytes) = b.readableBytes := by
    rw [toInt32_of_fits (by omega) (by omega)]
    unfold toUInt32
    omega
  rw [checksum, hlen, peek_take le_rfl, ← b.readable_length, List.take_length]

/-- Sealing a buffer puts the size before it and the checksum behind it; the `prepend` has
room. -/
theorem readable_sealFrame_eq {b : Buffer} (hr : kCheapPrepend ≤ b.readerIndex) :
    (sealFrame b).readable = hostToNetwork32 (toInt32 (b.readable.length + 4 : ℕ)) ++
      (b.readable ++ hostToNetwork32 (checksum b.peek (toInt32 b.readableBytes))) := by
  rw [sealFrame]
  generalize checksum b.peek (toInt32 b.readableBytes) = sum
  have hreserve := reserve_append (hostToNetwork32 sum) hr
  have hread : (b.append (hostToNetwork32 sum)).readable = b.readable ++ hostToNetwork32 sum :=
    readable_append b _
  have hlen : (b.append (hostToNetwork32 sum)).readableBytes = b.readable.length + 4 := by
    rw [← readable_length, hread, List.length_append, hostToNetwork32_length]
  have hroom : (hostToNetwork32 (toInt32 (b.readable.length + 4 : ℕ))).length ≤
      (b.append (hostToNetwork32 sum)).prependableBytes := by
    rw [hostToNetwork32_length]
    exact le_trans (by decide) hreserve
  rw [hlen, readable_prepend hroom, hread]

/-- Within the range of `int` that is the frame of `body`. -/
theorem readable_sealFrame {b : Buffer} {body : Bytes} (hb : b.readable = body)
    (hr : kCheapPrepend ≤ b.readerIndex) (hsize : body.length + kChecksumLen < 2 ^ 31) :
    (sealFrame b).readable = hostToNetwork32 (body.length + kChecksumLen) ++
      (body ++ hostToNetwork32 (toInt32 (adler32 body))) := by
  simp only [kChecksumLen] at hsize
  have hlen : b.readableBytes = body.length := by rw [← readable_length, hb]
  have hsum := checksum_readable (b := b) (by omega)
  have hfits : toInt32 ((body.length + 4 : ℕ) : ℤ) = body.length + 4 := by
    rw [toInt32_of_fits (by omega) (by omega)]
    omega
  rw [readable_sealFrame_eq hr, hsum, hb, hfits]
  rfl

/-- Into a buffer without readable bytes whose reserve is there, `fillEmptyBuffer` writes the
documented frame. -/
theorem fillEmptyBuffer_ok (message : RpcMetaMessage) {b : Buffer} (hb : b.readable = [])
    (hr : kCheapPrepend ≤ b.readerIndex)
    (hsize : codec.tag.length + (codec.runtime.serialize message).length + kChecksumLen
      < 2 ^ 31) :
    ∃ b', codec.fillEmptyBuffer b message = .ok b' ∧ b'.readable = codec.frame message := by
  simp only [kChecksumLen] at hsize
  obtain ⟨b1, h1, hread, hr1⟩ := codec.serializeToBuffer_ok message
    (reserve_append codec.tag hr) (by simp only [kChecksumLen]; omega)
  rw [readable_append, hb, List.nil_append] at hread
  refine ⟨sealFrame b1, by rw [fillEmptyBuffer, h1, Except.map], ?_⟩
  have hlen : ((codec.tag ++ codec.runtime.serialize message).length : ℤ) + kChecksumLen
      < 2 ^ 31 := by
    simp only [List.length_append, kChecksumLen]
    omega
  exact readable_sealFrame hread hr1 hlen

/-- `send` hands the frame of the message to the connection. -/
theorem send_eq_frame (message : RpcMetaMessage)
    (hsize : codec.tag.length + (codec.runtime.serialize message).length + kChecksumLen
      < 2 ^ 31) : codec.send message = .ok (codec.frame message) := by
  obtain ⟨b', hfill, hread⟩ := codec.fillEmptyBuffer_ok message
    (readable_new kInitialSize) le_rfl hsize
  rw [send, hfill, Except.map, retrieveAllAsString, retrieveAsString, peek_take le_rfl,
    hread, ← b'.readable_length, hread, List.take_length]

end Encode

section Decode

/-- One look at the readable bytes, as one turn of the loop of `onMessage` takes it. -/
def next (xs : Bytes) : Verdict RpcMetaMessage ErrorCode :=
  if xs.length < codec.tag.length + 8 then .more
  else
    let len := networkToHost32 (xs.take 4)
    if len > kMaxMessageLen ∨ len < codec.tag.length + kChecksumLen then .fail .kInvalidLength
    else if xs.length < 4 + len.toNat then .more
    else
      match codec.parse (xs.drop 4) len with
      | .ok message => .item (4 + len.toNat) message
      | .error errorCode => .fail errorCode

variable {codec}

/-- The length is checked before `parse`, never in it. -/
lemma parse_ne_kInvalidLength (buf : Bytes) (len : ℤ) :
    codec.parse buf len ≠ .error .kInvalidLength := by
  unfold parse
  split
  · split
    · simp only
      split <;> simp
    · simp
  · simp

/-- `parse` looks at the `len` bytes of the frame and at nothing after them. -/
theorem parse_take (buf : Bytes) {len : ℤ} (hlo : codec.tag.length + kChecksumLen ≤ len)
    (hhi : len < 2 ^ 31) : codec.parse (buf.take len.toNat) len = codec.parse buf len := by
  simp only [kChecksumLen] at hlo
  have hsum : (buf.take len.toNat).take (toUInt32 (len - 4)) = buf.take (toUInt32 (len - 4)) := by
    rw [List.take_take]
    congr 1
    unfold toUInt32
    omega
  have hnet : ((buf.take len.toNat).drop (len - 4).toNat).take 4 =
      (buf.drop (len - 4).toNat).take 4 := by
    rw [List.drop_take, List.take_take]
    congr 1
    omega
  have htag : (buf.take len.toNat).take codec.tag.length = buf.take codec.tag.length := by
    rw [List.take_take]
    congr 1
    omega
  have hdata : ((buf.take len.toNat).drop codec.tag.length).take
      (len - 4 - toInt32 codec.tag.length).toNat =
      (buf.drop codec.tag.length).take (len - 4 - toInt32 codec.tag.length).toNat := by
    rw [toInt32_of_fits (by omega) (by omega), List.drop_take, List.take_take]
    congr 1
    omega
  have hvalid : validateChecksum (buf.take len.toNat) len = validateChecksum buf len := by
    simp only [validateChecksum, checksum, kChecksumLen, hsum, hnet]
  rw [parse, parse, hvalid, htag]
  simp only [kChecksumLen, hdata]

/-- Where four bytes end what `parse` looks at, the order of its tests: the checksum of what is
before them, the tag in front, the payload between. -/
theorem parse_split {body sum : Bytes} (hmin : codec.tag.length ≤ body.length)
    (hlen : body.length + 4 < 2 ^ 31) (hsum : sum.length = 4) (ys : Bytes) :
    codec.parse (body ++ (sum ++ ys)) ((body.length : ℤ) + 4) =
      if BigEndian.decode sum = adler32 body then
        if body.take codec.tag.length = codec.tag then
          match codec.runtime.parseFromArray (body.drop codec.tag.length) with
          | some message => .ok message
          | none => .error .kParseError
        else .error .kUnknownMessageType
      else .error .kCheckSumError := by
  have hbody : toUInt32 ((body.length : ℤ) + 4 - 4) = body.length := by
    unfold toUInt32
    omega
  have hdrop : ((body.length : ℤ) + 4 - 4).toNat = body.length := by omega
  have hdata : ((body.length : ℤ) + 4 - 4 - toInt32 codec.tag.length).toNat =
      body.length - codec.tag.length := by
    rw [toInt32_of_fits (by omega) (by omega)]
    omega
  have hstored := BigEndian.decode_lt sum
  rw [hsum] at hstored
  have hvalid : validateChecksum (body ++ (sum ++ ys)) ((body.length : ℤ) + 4) =
      decide (BigEndian.decode sum = adler32 body) := by
    simp only [validateChecksum, checksum, kChecksumLen, hbody, hdrop, List.take_left,
      List.drop_left, List.take_left' hsum, networkToHost32]
    rw [Bool.beq_eq_decide_eq, decide_eq_decide]
    constructor
    · intro h
      exact (toInt32_inj (adler32_lt body) hstored h).symm
    · intro h
      rw [h]
  have hpayload : ((body ++ (sum ++ ys)).drop codec.tag.length).take
      (body.length - codec.tag.length) = body.drop codec.tag.length := by
    rw [List.drop_append_of_le_length hmin, List.take_left' (by rw [List.length_drop])]
  rw [parse, hvalid, List.take_append_of_le_length hmin]
  cases hmessage : codec.runtime.parseFromArray (body.drop codec.tag.length) with
  | none => simp only [kChecksumLen, hdata, hpayload, hmessage, decide_eq_true_eq]
  | some message => simp only [kChecksumLen, hdata, hpayload, hmessage, decide_eq_true_eq]

/-- What a checksum is stored as. -/
lemma decode_stored (body : Bytes) :
    BigEndian.decode (hostToNetwork32 (toInt32 (adler32 body))) = adler32 body := by
  have hlt := adler32_lt body
  rw [hostToNetwork32, BigEndian.decode_encode]
  unfold toUInt32 toInt32
  omega

/-- A verdict other than waiting depends on bytes already read. -/
theorem next_append {xs : Bytes} (ys : Bytes) (h : codec.next xs ≠ .more) :
    codec.next (xs ++ ys) = codec.next xs := by
  unfold next at h ⊢
  have hlen : ¬ xs.length < codec.tag.length + 8 := by
    intro hc
    simp [hc] at h
  have hlen' : ¬ (xs ++ ys).length < codec.tag.length + 8 := by
    rw [List.length_append]
    omega
  have hhead : (xs ++ ys).take 4 = xs.take 4 := List.take_append_of_le_length (by omega)
  simp only [hlen, hlen', ↓reduceIte, hhead] at h ⊢
  generalize networkToHost32 (xs.take 4) = len at h ⊢
  by_cases hbad : len > kMaxMessageLen ∨ len < codec.tag.length + kChecksumLen
  · simp only [hbad, ↓reduceIte]
  · by_cases hpart : xs.length < 4 + len.toNat
    · simp [hbad, hpart] at h
    · have hpart' : ¬ (xs ++ ys).length < 4 + len.toNat := by
        rw [List.length_append]
        omega
      have hbound : codec.tag.length + kChecksumLen ≤ len ∧ len < 2 ^ 31 := by
        simp only [kMaxMessageLen] at hbad
        omega
      have hparse : codec.parse ((xs ++ ys).drop 4) len = codec.parse (xs.drop 4) len := by
        rw [← parse_take _ hbound.1 hbound.2, ← parse_take (xs.drop 4) hbound.1 hbound.2,
          List.drop_append_of_le_length (by omega), List.take_append_of_le_length]
        rw [List.length_drop]
        omega
      simp only [hbad, hpart, hpart', ↓reduceIte, hparse]

/-- With a whole frame of admissible size in front, the verdict is that of `parse`. -/
theorem next_whole {head content : Bytes} (hhead : head.length = 4)
    (hsize : networkToHost32 head = content.length)
    (hmin : codec.tag.length + 4 ≤ content.length) (hmax : content.length ≤ kMaxMessageLen)
    (ys : Bytes) : codec.next (head ++ (content ++ ys)) =
      match codec.parse (content ++ ys) content.length with
      | .ok message => .item (4 + content.length) message
      | .error errorCode => .fail errorCode := by
  have hlen : (head ++ (content ++ ys)).length = 4 + content.length + ys.length := by
    simp only [List.length_append, hhead]
    omega
  have hshort : ¬ (head ++ (content ++ ys)).length < codec.tag.length + 8 := by omega
  have hrange : ¬ ((content.length : ℤ) > kMaxMessageLen ∨
      (content.length : ℤ) < codec.tag.length + kChecksumLen) := by
    simp only [kChecksumLen]
    omega
  have hpart : ¬ (head ++ (content ++ ys)).length < 4 + content.length := by omega
  rw [next, if_neg hshort, List.take_left' hhead, List.drop_left' hhead, hsize]
  simp only [hrange, hpart, ↓reduceIte, Int.toNat_natCast]

theorem next_item_bounds {xs : Bytes} {n : ℕ} {message : RpcMetaMessage}
    (h : codec.next xs = .item n message) : 0 < n ∧ n ≤ xs.length := by
  unfold next at h
  dsimp only at h
  split_ifs at h with h1 h2 h3
  cases hp : codec.parse (xs.drop 4) (networkToHost32 (xs.take 4)) with
  | error e => simp [hp] at h
  | ok m =>
    simp only [hp, Verdict.item.injEq] at h
    omega

/-- No frame is shorter than one with an empty payload. -/
theorem next_item_min {xs : Bytes} {n : ℕ} {message : RpcMetaMessage}
    (h : codec.next xs = .item n message) : codec.tag.length + 8 ≤ n := by
  unfold next at h
  dsimp only at h
  split_ifs at h with h1 h2 h3
  simp only [kChecksumLen, not_or, not_lt] at h2
  cases hp : codec.parse (xs.drop 4) (networkToHost32 (xs.take 4)) with
  | error e => simp [hp] at h
  | ok m =>
    simp only [hp, Verdict.item.injEq] at h
    omega

/-- The incremental decoder that `onMessage` runs on the readable bytes. -/
def decoder (codec : ProtobufCodecLite) : Decoder UInt8 RpcMetaMessage ErrorCode where
  next := codec.next
  next_nil := by simp [next]
  item_bounds := next_item_bounds
  item_append ys h := (next_append ys (by simp [h])).trans h
  fail_append ys h := (next_append ys (by simp [h])).trans h

theorem kMinMessageLen_eq (h : codec.TagInt) :
    codec.kMinMessageLen = codec.tag.length + kChecksumLen := by
  simp only [TagInt, kChecksumLen] at h
  rw [kMinMessageLen, kChecksumLen, toInt32_of_fits (by omega) (by omega)]

/-- A turn of the loop of `onMessage` gives the verdict of the decoder on the readable bytes. -/
theorem onMessageTurn_eq (h : codec.TagInt) (buf : Buffer) :
    codec.onMessageTurn buf = codec.next buf.readable := by
  have hmin := kMinMessageLen_eq h
  simp only [TagInt, kChecksumLen] at h
  have hguard : toUInt32 (codec.kMinMessageLen + kHeaderLen) = codec.tag.length + 8 := by
    rw [hmin, kChecksumLen, kHeaderLen]
    unfold toUInt32
    omega
  simp only [onMessageTurn, next, hguard, readable_length]
  by_cases hlt : buf.readableBytes < codec.tag.length + 8
  · simp [hlt, not_le.mpr hlt]
  · have hhead : buf.peek.take 4 = buf.readable.take 4 := peek_take (by omega)
    simp only [hlt, not_lt.mp hlt, ↓reduceIte, hhead, hmin]
    generalize networkToHost32 (buf.readable.take 4) = len
    by_cases hbad : len > kMaxMessageLen ∨ len < codec.tag.length + kChecksumLen
    · simp only [hbad, ↓reduceIte]
    · have hbound : codec.tag.length + kChecksumLen ≤ len ∧ len < 2 ^ 31 := by
        simp only [kMaxMessageLen] at hbad
        omega
      have hsize : toSizeT (kHeaderLen + len) = 4 + len.toNat := by
        simp only [kChecksumLen] at hbound
        rw [kHeaderLen]
        unfold toSizeT
        omega
      simp only [hbad, ↓reduceIte, hsize]
      by_cases hpart : buf.readableBytes < 4 + len.toNat
      · simp [hpart, not_le.mpr hpart]
      · have hparse : codec.parse (buf.peek.drop kHeaderLen.toNat) len =
            codec.parse (buf.readable.drop 4) len := by
          have hdrop : (buf.peek.drop 4).take len.toNat =
              (buf.readable.drop 4).take len.toNat := by
            rw [List.take_drop, List.take_drop, peek_take (by omega)]
          have hheader : kHeaderLen.toNat = 4 := rfl
          rw [hheader, ← parse_take (buf.peek.drop 4) hbound.1 hbound.2, hdrop,
            parse_take _ hbound.1 hbound.2]
        cases hbody : codec.parse (buf.readable.drop 4) len <;>
          simp only [hpart, not_lt.mp hpart, ↓reduceIte, hparse, hbody]

section Loop

variable {σ : Type*} (messageCallback : σ → RpcMetaMessage → σ)
  (errorCallback : σ → ErrorCode → σ)

/-- What the callbacks make of a pass: the messages in order, then the error if there is one. -/
def deliver (r : Drained UInt8 RpcMetaMessage ErrorCode) (s : σ) : σ :=
  r.error.elim (r.items.foldl messageCallback s)
    (errorCallback (r.items.foldl messageCallback s))

/-- The loop on a body that gives the verdicts of a decoder makes one pass of the decoder. -/
theorem onMessageLoop_drain {turn : Buffer → Verdict RpcMetaMessage ErrorCode}
    {d : Decoder UInt8 RpcMetaMessage ErrorCode}
    (hturn : ∀ buf : Buffer, turn buf = d.next buf.readable) {fuel : ℕ} {buf : Buffer}
    (hf : buf.readableBytes < fuel) (s : σ) :
    ∃ buf', onMessageLoop turn messageCallback errorCallback fuel buf s =
        some (buf', deliver messageCallback errorCallback (drain d buf.readable) s) ∧
      buf'.readable = (drain d buf.readable).rest := by
  induction fuel generalizing buf s with
  | zero => omega
  | succ fuel ih =>
    rw [onMessageLoop, hturn]
    cases hn : d.next buf.readable with
    | more => exact ⟨buf, by simp [drain_more d hn, deliver]⟩
    | fail e => exact ⟨buf, by simp [drain_fail d hn, deliver]⟩
    | item n message =>
      have hb := d.item_bounds hn
      rw [readable_length] at hb
      have hlen : (buf.retrieve n).readableBytes < fuel := by
        rw [← readable_length, readable_retrieve, List.length_drop, readable_length]
        omega
      obtain ⟨buf', h1, h2⟩ := ih hlen (messageCallback s message)
      rw [readable_retrieve] at h1 h2
      refine ⟨buf', ?_, ?_⟩
      · simp [h1, drain_item d hn, deliver]
      · simp [h2, drain_item d hn]

/-- `onMessage` makes one pass over the readable bytes, and always returns. -/
theorem onMessage_drain (h : codec.TagInt) (buf : Buffer) (s : σ) :
    ∃ buf', codec.onMessage messageCallback errorCallback buf s =
        some (buf', deliver messageCallback errorCallback
          (drain codec.decoder buf.readable) s) ∧
      buf'.readable = (drain codec.decoder buf.readable).rest :=
  onMessageLoop_drain messageCallback errorCallback (onMessageTurn_eq h)
    (Nat.lt_succ_self _) s

/-- An offending front is reported once, nothing is delivered and nothing is consumed. -/
theorem onMessage_fail {buf : Buffer} {errorCode : ErrorCode}
    (hfail : codec.onMessageTurn buf = .fail errorCode) (s : σ) :
    codec.onMessage messageCallback errorCallback buf s =
      some (buf, errorCallback s errorCode) := by
  rw [onMessage, onMessageLoop, hfail]

end Loop

lemma networkToHost32_size {n : ℕ} (h : n + 4 < 2 ^ 31) :
    networkToHost32 (hostToNetwork32 ((n : ℤ) + kChecksumLen)) = n + 4 := by
  rw [kChecksumLen]
  exact networkToHost32_hostToNetwork32 (by omega) (by omega)

/-- `parse` accepts what follows the size in a frame, whatever comes after the frame. -/
theorem parse_sealed {message : RpcMetaMessage} (ys : Bytes) {body : Bytes}
    (hbody : body = codec.tag ++ codec.runtime.serialize message)
    (hsize : body.length + 4 < 2 ^ 31)
    (hparse : codec.runtime.parseFromArray (codec.runtime.serialize message) = some message) :
    codec.parse (body ++ (hostToNetwork32 (toInt32 (adler32 body)) ++ ys)) (body.length + 4) =
      .ok message := by
  have hmin : codec.tag.length ≤ body.length := by
    rw [hbody, List.length_append]
    omega
  have htag : body.take codec.tag.length = codec.tag := by rw [hbody, List.take_left]
  have hdata : body.drop codec.tag.length = codec.runtime.serialize message := by
    rw [hbody, List.drop_left]
  rw [parse_split hmin hsize (hostToNetwork32_length _), if_pos (decode_stored body), if_pos htag,
    hdata, hparse]

theorem frame_length (message : RpcMetaMessage) : (codec.frame message).length =
    4 + (codec.tag.length + (codec.runtime.serialize message).length + 4) := by
  simp only [frame, List.length_append, hostToNetwork32_length]

/-- Past its first four bytes a prefix of a frame announces the size of that frame. -/
theorem frame_head {message : RpcMetaMessage} {p : Bytes} (hp : p <+: codec.frame message)
    (h4 : 4 ≤ p.length) : p.take 4 =
      hostToNetwork32 ((codec.tag ++ codec.runtime.serialize message).length + kChecksumLen) := by
  obtain ⟨q, hq⟩ := hp
  have h : (p ++ q).take 4 = p.take 4 := List.take_append_of_le_length h4
  rw [← h, hq, frame, List.take_append_of_le_length (by simp), List.take_of_length_le (by simp)]

/-- The frame of a message within the limit is one item of the decoder. -/
theorem framed_frame {message : RpcMetaMessage}
    (hsize : codec.tag.length + (codec.runtime.serialize message).length + kChecksumLen
      ≤ kMaxMessageLen)
    (hparse : codec.runtime.parseFromArray (codec.runtime.serialize message) = some message) :
    Framed codec.decoder (codec.frame message) message := by
  simp only [kMaxMessageLen, kChecksumLen] at hsize
  have hbody : (codec.tag ++ codec.runtime.serialize message).length =
      codec.tag.length + (codec.runtime.serialize message).length := List.length_append
  have hwire := networkToHost32_size
    (n := (codec.tag ++ codec.runtime.serialize message).length) (by omega)
  have hok : ¬ ((codec.tag ++ codec.runtime.serialize message).length + 4 > kMaxMessageLen ∨
      ((codec.tag ++ codec.runtime.serialize message).length : ℤ) + 4 <
        codec.tag.length + kChecksumLen) := by
    simp only [kMaxMessageLen, kChecksumLen]
    omega
  constructor
  · intro ys
    -- the frame is the head followed by the body and its checksum
    obtain ⟨content, hcontent⟩ : ∃ content, content =
        codec.tag ++ codec.runtime.serialize message ++
          hostToNetwork32 (toInt32 (adler32 (codec.tag ++ codec.runtime.serialize message))) :=
      ⟨_, rfl⟩
    have hlen : content.length =
        (codec.tag ++ codec.runtime.serialize message).length + 4 := by
      rw [hcontent, List.length_append, hostToNetwork32_length]
    have hlength := codec.frame_length message
    have hframe : codec.frame message ++ ys = hostToNetwork32
        ((codec.tag ++ codec.runtime.serialize message).length + kChecksumLen) ++
          (content ++ ys) := by
      rw [hcontent, frame]
      simp only [List.append_assoc]
    have hcast : ((codec.tag ++ codec.runtime.serialize message).length + 4 : ℤ) =
        content.length := by omega
    change codec.next _ = _
    rw [hframe, next_whole (hostToNetwork32_length _) (hwire.trans hcast) (by omega)
      (by simp only [kMaxMessageLen]; omega)]
    have hparsed : codec.parse (content ++ ys) content.length = .ok message := by
      rw [← hcast, hcontent, List.append_assoc]
      exact parse_sealed ys rfl (by omega) hparse
    rw [hparsed]
    simp only [Verdict.item.injEq, and_true]
    omega
  · intro p hp hlt
    change codec.next p = _
    have hlen := codec.frame_length message
    by_cases hshort : p.length < codec.tag.length + 8
    · simp [next, hshort]
    · have hpart : p.length < 4 +
          ((codec.tag ++ codec.runtime.serialize message).length + 4 : ℤ).toNat := by omega
      rw [next, if_neg hshort, frame_head hp (by omega), hwire]
      simp only [hok, hpart, ↓reduceIte]

end Decode

end RpcMuduo.ProtobufCodecLite
