import RpcMuduo.CodecChunks

/-!
# The grammar of frames

The wire format on bytes alone, with sizes and checksums as plain numbers, and `onMessage` as
the recogniser of the longest run of well-formed frames.
-/
namespace RpcMuduo.FrameGrammar
open Adler32 CInt StreamDecoder ProtobufCodecLite CodecRoundTrip
open RpcMeta (RpcMetaMessage testRuntime)

variable (codec : ProtobufCodecLite)

/-- Four bytes that announce the size of what follows them, within the limits. -/
structure Announced (head content : Bytes) : Prop where
  head_length : head.length = 4
  size : BigEndian.decode head = content.length
  min_le : codec.tag.length + kChecksumLen ≤ content.length
  le_max : content.length ≤ kMaxMessageLen

/-- Size, tag, payload and checksum. -/
inductive WellFormed : Bytes → RpcMetaMessage → Prop
  | intro {head payload sum : Bytes} {message : RpcMetaMessage}
      (announced : Announced codec head (codec.tag ++ payload ++ sum)) (stored : sum.length = 4)
      (checked : BigEndian.decode sum = adler32 (codec.tag ++ payload))
      (parsed : codec.runtime.parseFromArray payload = some message) :
      WellFormed (head ++ (codec.tag ++ payload ++ sum)) message

/-- What can remain in front of the reader: too little for any frame, a part of a frame of
admissible size, or an offending frame with the first of the four errors that applies. -/
inductive Remainder : Bytes → Option ErrorCode → Prop
  | short {xs : Bytes} (lt : xs.length < codec.tag.length + 8) : Remainder xs none
  | incomplete {head ys : Bytes} (head_length : head.length = 4)
      (min_le : codec.tag.length + kChecksumLen ≤ BigEndian.decode head)
      (le_max : BigEndian.decode head ≤ kMaxMessageLen)
      (partial_content : ys.length < BigEndian.decode head) : Remainder (head ++ ys) none
  | size {head ys : Bytes} (head_length : head.length = 4)
      (min_le : codec.tag.length + 4 ≤ ys.length)
      (outside : BigEndian.decode head < codec.tag.length + kChecksumLen ∨
        kMaxMessageLen < BigEndian.decode head) :
      Remainder (head ++ ys) (some .kInvalidLength)
  | checksum {head body sum : Bytes} (ys : Bytes) (announced : Announced codec head (body ++ sum))
      (stored : sum.length = 4) (mismatch : BigEndian.decode sum ≠ adler32 body) :
      Remainder (head ++ (body ++ sum ++ ys)) (some .kCheckSumError)
  | tag {head body sum : Bytes} (ys : Bytes) (announced : Announced codec head (body ++ sum))
      (stored : sum.length = 4) (checked : BigEndian.decode sum = adler32 body)
      (untagged : ¬ codec.tag <+: body) :
      Remainder (head ++ (body ++ sum ++ ys)) (some .kUnknownMessageType)
  | payload {head payload sum : Bytes} (ys : Bytes)
      (announced : Announced codec head (codec.tag ++ payload ++ sum)) (stored : sum.length = 4)
      (checked : BigEndian.decode sum = adler32 (codec.tag ++ payload))
      (unparsable : codec.runtime.parseFromArray payload = none) :
      Remainder (head ++ (codec.tag ++ payload ++ sum ++ ys)) (some .kParseError)

variable {codec}

/-- Every input starts with a well-formed frame or is a remainder. -/
theorem wellFormed_or_remainder (codec : ProtobufCodecLite) (xs : Bytes) :
    (∃ frame message ys, xs = frame ++ ys ∧ WellFormed codec frame message) ∨
      ∃ error, Remainder codec xs error := by
  by_cases hshort : xs.length < codec.tag.length + 8
  · exact .inr ⟨none, .short hshort⟩
  obtain ⟨head, ys, rfl, hhead⟩ : ∃ head ys, xs = head ++ ys ∧ head.length = 4 :=
    ⟨xs.take 4, xs.drop 4, (List.take_append_drop 4 xs).symm, by rw [List.length_take]; omega⟩
  rw [List.length_append, hhead] at hshort
  by_cases hrange : codec.tag.length + kChecksumLen ≤ BigEndian.decode head ∧
      BigEndian.decode head ≤ kMaxMessageLen
  swap
  · exact .inr ⟨_, .size hhead (by omega) (by omega)⟩
  obtain ⟨hmin, hmax⟩ := hrange
  by_cases hpart : ys.length < BigEndian.decode head
  · exact .inr ⟨none, .incomplete hhead hmin hmax hpart⟩
  obtain ⟨body, sum, rest, rfl, hsum, hsize⟩ : ∃ body sum rest, ys = body ++ sum ++ rest ∧
      sum.length = 4 ∧ BigEndian.decode head = (body ++ sum).length := by
    simp only [kChecksumLen] at hmin
    refine ⟨ys.take (BigEndian.decode head - 4), (ys.drop (BigEndian.decode head - 4)).take 4,
      ys.drop (BigEndian.decode head), ?_, ?_, ?_⟩
    · rw [List.append_assoc]
      have hdrop : ys.drop (BigEndian.decode head) =
          (ys.drop (BigEndian.decode head - 4)).drop 4 := by
        rw [List.drop_drop]
        congr 1
        omega
      rw [hdrop, List.take_append_drop, List.take_append_drop]
    · rw [List.length_take, List.length_drop]
      omega
    · rw [List.length_append, List.length_take, List.length_take, List.length_drop]
      omega
  rw [hsize] at hmin hmax
  have hann : Announced codec head (body ++ sum) := ⟨hhead, hsize, hmin, hmax⟩
  by_cases hcheck : BigEndian.decode sum = adler32 body
  swap
  · exact .inr ⟨_, .checksum rest hann hsum hcheck⟩
  by_cases htag : codec.tag <+: body
  swap
  · exact .inr ⟨_, .tag rest hann hsum hcheck htag⟩
  obtain ⟨payload, rfl⟩ := htag
  cases hparse : codec.runtime.parseFromArray payload with
  | none => exact .inr ⟨_, .payload rest hann hsum hcheck hparse⟩
  | some message =>
    refine .inl ⟨_, message, rest, ?_, .intro hann hsum hcheck hparse⟩
    simp only [List.append_assoc]

/-- A size within the limits is the same number as an unsigned and as a signed integer, and no
other size is taken for one of them. -/
lemma networkToHost32_decode {head : Bytes} (hhead : head.length = 4) :
    (BigEndian.decode head : ℤ) ≤ kMaxMessageLen ∧ networkToHost32 head = BigEndian.decode head ∨
      kMaxMessageLen < BigEndian.decode head ∧
        (kMaxMessageLen < networkToHost32 head ∨ networkToHost32 head < 0) := by
  have hlt := BigEndian.decode_lt head
  rw [hhead] at hlt
  unfold networkToHost32 toInt32 kMaxMessageLen
  omega

lemma Announced.networkToHost32_eq {head content : Bytes} (h : Announced codec head content) :
    networkToHost32 head = content.length := by
  have hmax := h.le_max
  rw [← h.size] at hmax ⊢
  rcases networkToHost32_decode h.head_length with ⟨-, heq⟩ | ⟨hlt, -⟩
  · exact heq
  · omega

/-- The order of the tests that `parse` makes on a whole frame. -/
lemma Announced.parse_eq {head body sum : Bytes} (h : Announced codec head (body ++ sum))
    (hsum : sum.length = 4) (ys : Bytes) :
    codec.parse (body ++ sum ++ ys) (body ++ sum).length =
      if BigEndian.decode sum = adler32 body then
        if body.take codec.tag.length = codec.tag then
          match codec.runtime.parseFromArray (body.drop codec.tag.length) with
          | some message => .ok message
          | none => .error .kParseError
        else .error .kUnknownMessageType
      else .error .kCheckSumError := by
  have hmin := h.min_le
  have hmax := h.le_max
  have hlen : ((body ++ sum).length : ℤ) = body.length + 4 := by
    rw [List.length_append, hsum]
    rfl
  simp only [hlen, kChecksumLen, kMaxMessageLen] at hmin hmax
  rw [hlen, List.append_assoc]
  exact parse_split (by omega) (by omega) hsum ys

/-- The verdict on a whole frame, well-formed or not. -/
lemma Announced.next_eq {head body sum : Bytes} (h : Announced codec head (body ++ sum))
    (hsum : sum.length = 4) (ys : Bytes) :
    codec.next (head ++ (body ++ sum ++ ys)) =
      if BigEndian.decode sum = adler32 body then
        if body.take codec.tag.length = codec.tag then
          match codec.runtime.parseFromArray (body.drop codec.tag.length) with
          | some message => .item (head ++ (body ++ sum)).length message
          | none => .fail .kParseError
        else .fail .kUnknownMessageType
      else .fail .kCheckSumError := by
  have hmin := h.min_le
  have hwhole : (head ++ (body ++ sum)).length = 4 + (body ++ sum).length := by
    rw [List.length_append, h.head_length]
  simp only [kChecksumLen] at hmin
  rw [next_whole h.head_length h.networkToHost32_eq (by omega) h.le_max, h.parse_eq hsum, hwhole]
  split_ifs
  · cases codec.runtime.parseFromArray (body.drop codec.tag.length) <;> rfl
  · rfl
  · rfl

/-- The decoder takes a well-formed frame whole, whatever follows it. -/
theorem next_wellFormed {frame : Bytes} {message : RpcMetaMessage} (ys : Bytes)
    (h : WellFormed codec frame message) :
    codec.next (frame ++ ys) = .item frame.length message := by
  obtain ⟨hann, hsum, hcheck, hparse⟩ := h
  rw [List.append_assoc, hann.next_eq hsum, if_pos hcheck, List.take_left, if_pos rfl,
    List.drop_left, hparse]

/-- On a remainder the decoder waits or reports the error of the remainder. -/
theorem next_remainder {xs : Bytes} {error : Option ErrorCode} (h : Remainder codec xs error) :
    codec.next xs = error.elim .more .fail := by
  cases h with
  | short hlt => rw [next, if_pos hlt, Option.elim_none]
  | @incomplete head ys hhead hmin hmax hpart =>
    rw [next, List.take_left' hhead, Option.elim_none]
    rcases networkToHost32_decode hhead with ⟨-, heq⟩ | ⟨hlt, -⟩
    · have hrange : ¬ ((BigEndian.decode head : ℤ) > kMaxMessageLen ∨
          (BigEndian.decode head : ℤ) < codec.tag.length + kChecksumLen) := by omega
      have hwait : (head ++ ys).length < 4 + BigEndian.decode head := by
        rw [List.length_append, hhead]
        omega
      simp only [heq, hrange, hwait, ↓reduceIte, Int.toNat_natCast, ite_self]
    · omega
  | @size head ys hhead hmin hout =>
    have hlong : ¬ (head ++ ys).length < codec.tag.length + 8 := by
      rw [List.length_append, hhead]
      omega
    have hbad : networkToHost32 head > kMaxMessageLen ∨
        networkToHost32 head < codec.tag.length + kChecksumLen := by
      simp only [kChecksumLen] at hout ⊢
      rcases networkToHost32_decode hhead with ⟨hle, heq⟩ | ⟨-, hlt⟩ <;> omega
    rw [next, if_neg hlong, List.take_left' hhead, if_pos hbad]
    rfl
  | checksum ys hann hsum hbad => rw [hann.next_eq hsum, if_neg hbad, Option.elim_some]
  | tag ys hann hsum hcheck hno =>
    rw [hann.next_eq hsum, if_pos hcheck, if_neg, Option.elim_some]
    intro htake
    exact hno (List.prefix_iff_eq_take.mpr htake.symm)
  | payload ys hann hsum hcheck hnone =>
    rw [hann.next_eq hsum, if_pos hcheck, List.take_left, if_pos rfl, List.drop_left, hnone,
      Option.elim_some]

/-- An input is a remainder in one way only. -/
theorem Remainder.unique {xs : Bytes} {error error' : Option ErrorCode}
    (h : Remainder codec xs error) (h' : Remainder codec xs error') : error = error' := by
  have heq := (next_remainder h).symm.trans (next_remainder h')
  cases error <;> cases error' <;> simp_all

/-- What the decoder takes is a well-formed frame. -/
lemma wellFormed_of_next {xs : Bytes} {n : ℕ} {message : RpcMetaMessage}
    (h : codec.next xs = .item n message) : WellFormed codec (xs.take n) message := by
  rcases wellFormed_or_remainder codec xs with ⟨frame, m, ys, rfl, hw⟩ | ⟨error, hr⟩
  · rw [next_wellFormed ys hw, Verdict.item.injEq] at h
    obtain ⟨rfl, rfl⟩ := h
    rwa [List.take_left]
  · rw [next_remainder hr] at h
    cases error <;> cases h

/-- Where the decoder takes nothing, there is a remainder. -/
lemma remainder_of_next {xs : Bytes} {error : Option ErrorCode}
    (h : codec.next xs = error.elim .more .fail) : Remainder codec xs error := by
  rcases wellFormed_or_remainder codec xs with ⟨frame, m, ys, rfl, hw⟩ | ⟨e, hr⟩
  · rw [next_wellFormed ys hw] at h
    cases error <;> cases h
  · rw [next_remainder hr] at h
    cases error <;> cases e <;> simp_all

lemma remainder_drain (codec : ProtobufCodecLite) (xs : Bytes) :
    Remainder codec (drain codec.decoder xs).rest (drain codec.decoder xs).error := by
  apply remainder_of_next
  cases herror : (drain codec.decoder xs).error with
  | none => exact next_rest_more herror
  | some e => exact next_rest codec.decoder herror

variable (codec)

/-- One call of `onMessage` delivers the messages of the longest run of well-formed frames in
front and consumes exactly these; of the remainder it reports the error if there is one. -/
def RecognisesGrammar : Prop :=
  ∀ buf : Buffer, ∃ frames messages rest error buf',
    buf.readable = frames.flatten ++ rest ∧
    List.Forall₂ (WellFormed codec) frames messages ∧
    (∀ frames' messages' rest', buf.readable = frames'.flatten ++ rest' →
      List.Forall₂ (WellFormed codec) frames' messages' → frames' <+: frames) ∧
    Remainder codec rest error ∧
    (∀ error', Remainder codec rest error' → error' = error) ∧
    codec.onMessage Delivery.message Delivery.error buf ⟨[], []⟩ =
      some (buf', ⟨messages, error.toList⟩) ∧
    buf'.readable = rest

/-- `onMessage` accepts exactly the grammar, for every tag whose size an `int` holds together
with that of the checksum. -/
theorem onMessage_recognises (h : codec.TagInt) : RecognisesGrammar codec := by
  intro buf
  obtain ⟨frames, hsplit, hall⟩ :=
    drain_spelled (d := codec.decoder) wellFormed_of_next buf.readable
  obtain ⟨buf', hrun, hrest⟩ := onMessage_drain Delivery.message Delivery.error h buf ⟨[], []⟩
  have hrem := remainder_drain codec buf.readable
  rw [deliver_eq_delivery] at hrun
  refine ⟨frames, _, _, _, buf', hsplit, hall, ?_, hrem, ?_, hrun, hrest⟩
  · intro frames' messages' rest' hsplit' hall'
    have hwhole : ∀ {x message} (ys : Bytes), WellFormed codec x message →
        codec.decoder.next (x ++ ys) = .item x.length message := by
      intro x message ys h
      exact next_wellFormed ys h
    exact spellings_prefix hwhole hall hall'
      (next_rest_ne_item buf.readable) (hsplit.symm.trans hsplit')
  · intro error' hrem'
    exact hrem'.unique hrem

theorem onMessage_recognises_testCodec : RecognisesGrammar testCodec :=
  onMessage_recognises testCodec (by unfold TagInt; decide)

/-- A tag of `2 ^ 32 - 5` bytes, and a buffer with the three bytes `FF FF FF`: fewer than any
frame, but an error is reported. -/
theorem not_recognises_hugeTag :
    ¬ RecognisesGrammar ⟨testRuntime, List.replicate (2 ^ 32 - 5) 0⟩ := by
  have hlen : (List.replicate (2 ^ 32 - 5) (0 : UInt8)).length = 2 ^ 32 - 5 :=
    List.length_replicate
  generalize List.replicate (2 ^ 32 - 5) (0 : UInt8) = tag at hlen ⊢
  intro hrec
  obtain ⟨frames, messages, rest, error, buf', -, -, -, hrem, -, hrun, hrest⟩ :=
    hrec ((Buffer.new Buffer.kInitialSize).append [255, 255, 255])
  have hfail := onMessage_fail Delivery.message Delivery.error
    (turn_three ⟨testRuntime, tag⟩ hlen) ⟨[], []⟩
  rw [hrun, Option.some.injEq, Prod.mk.injEq] at hfail
  obtain ⟨rfl, hdelivery⟩ := hfail
  rw [Buffer.readable_append, Buffer.readable_new, List.nil_append] at hrest
  cases hrem with
  | size hhead hmin =>
    have hthree := congrArg List.length hrest
    rw [List.length_append, hhead] at hthree
    simp only [List.length_cons, List.length_nil] at hthree
    omega
  | _ => simp [Delivery.error] at hdelivery

end RpcMuduo.FrameGrammar
