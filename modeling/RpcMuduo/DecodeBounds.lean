import RpcMuduo.FrameGrammar

/-!
# The reads and the arithmetic of the decoder

`onMessage` and what it calls, each with the memory it reads and the lengths it computes, in the
order of the source. The changes between signed and unsigned of a 32-bit pattern, of the size
field or of a checksum, are not computations and are left out.
-/
namespace RpcMuduo.DecodeBounds
open Adler32 CInt StreamDecoder ProtobufCodecLite CodecRoundTrip
open RpcMeta (RpcMetaMessage)

/-- A read of so many bytes from `peek() + offset`, or the exact result of a computation that is
then stored in its type. -/
inductive Event
  | load (offset length : ℤ)
  | int (value : ℤ)
  | uint32 (value : ℤ)
  | sizeT (value : ℤ)
  deriving DecidableEq, Repr

/-- A read stays within the readable bytes, and a length is not negative and not wrapped. -/
def Event.InRange (readable : ℕ) : Event → Prop
  | load offset length => 0 ≤ offset ∧ 0 ≤ length ∧ offset + length ≤ readable
  | int value => 0 ≤ value ∧ value < 2 ^ 31
  | uint32 value => 0 ≤ value ∧ value < 2 ^ 32
  | sizeT value => 0 ≤ value ∧ value < 2 ^ 64

section Trace

def load (buf : Buffer) (offset length : ℤ) : Bytes × List Event :=
  ((buf.peek.drop offset.toNat).take length.toNat, [.load offset length])

def int (value : ℤ) : ℤ × List Event := (toInt32 value, [.int value])

def uint32 (value : ℤ) : ℕ × List Event := (toUInt32 value, [.uint32 value])

def sizeT (value : ℤ) : ℕ × List Event := (toSizeT value, [.sizeT value])

def readableBytes (buf : Buffer) : ℕ × List Event := sizeT (buf.writerIndex - buf.readerIndex)

/-- The call of zlib takes the length as an `unsigned int`. -/
def checksum (buf : Buffer) (offset len : ℤ) : ℤ × List Event :=
  let n := uint32 len
  let data := load buf offset n.1
  (toInt32 (adler32 data.1), n.2 ++ data.2)

def validateChecksum (buf : Buffer) (offset len : ℤ) : Bool × List Event :=
  let be32 := load buf (offset + len - kChecksumLen) 4
  let n := int (len - kChecksumLen)
  let checkSum := checksum buf offset n.1
  (checkSum.1 == networkToHost32 be32.1, be32.2 ++ n.2 ++ checkSum.2)

/-- `std::string(data, dataLen)` takes the length as a `size_t`, and `ParseFromArray` takes that
of the string as an `int`. -/
def parse (codec : ProtobufCodecLite) (buf : Buffer) (offset len : ℤ) :
    Except ErrorCode RpcMetaMessage × List Event :=
  let valid := validateChecksum buf offset len
  if valid.1 then
    let tag := load buf offset codec.tag.length
    if tag.1 = codec.tag then
      let n := int (len - kChecksumLen)
      let tagLen := int codec.tag.length
      let dataLen := int (n.1 - tagLen.1)
      let size := sizeT dataLen.1
      let data := load buf (offset + codec.tag.length) size.1
      let arrayLen := int data.1.length
      (match codec.runtime.parseFromArray data.1 with
        | some message => .ok message
        | none => .error .kParseError,
        valid.2 ++ tag.2 ++ n.2 ++ tagLen.2 ++ dataLen.2 ++ size.2 ++ data.2 ++ arrayLen.2)
    else (.error .kUnknownMessageType, valid.2 ++ tag.2)
  else (.error .kCheckSumError, valid.2)

/-- The condition of the loop and its body; no verdict when the condition is false. -/
def turn (codec : ProtobufCodecLite) (buf : Buffer) :
    Option (Verdict RpcMetaMessage ErrorCode) × List Event :=
  let readable := readableBytes buf
  let shortest := int (codec.kMinMessageLen + kHeaderLen)
  let guard := uint32 shortest.1
  let tested := readable.2 ++ shortest.2 ++ guard.2
  if guard.1 ≤ readable.1 then
    let be32 := load buf 0 4
    let len := networkToHost32 be32.1
    if len > kMaxMessageLen ∨ len < codec.kMinMessageLen then
      (some (.fail .kInvalidLength), tested ++ be32.2)
    else
      let whole := int (kHeaderLen + len)
      let size := sizeT whole.1
      let sized := tested ++ be32.2 ++ readable.2 ++ whole.2 ++ size.2
      if size.1 ≤ readable.1 then
        let parsed := parse codec buf kHeaderLen len
        match parsed.1 with
        | .ok message => (some (.item size.1 message), sized ++ parsed.2 ++ whole.2 ++ size.2)
        | .error errorCode => (some (.fail errorCode), sized ++ parsed.2)
      else (some .more, sized)
  else (none, tested)

def retrieve (buf : Buffer) (len : ℕ) : Buffer × List Event :=
  let readable := readableBytes buf
  (buf.retrieve len,
    readable.2 ++ if len < readable.1 then (sizeT (buf.readerIndex + len)).2 else [])

/-- What one test of the loop's condition, and the body behind it, did. -/
structure Turn where
  readable : ℕ
  entered : Bool
  events : List Event
  deriving Repr

section Loop

variable {σ : Type*} (body : Buffer → Option (Verdict RpcMetaMessage ErrorCode) × List Event)
  (messageCallback : σ → RpcMetaMessage → σ) (errorCallback : σ → ErrorCode → σ)

def onMessageLoop : ℕ → Buffer → σ → Option ((Buffer × σ) × List Turn)
  | 0, _, _ => none
  | fuel + 1, buf, s =>
    let t := body buf
    match t.1 with
    | none => some ((buf, s), [⟨buf.readableBytes, false, t.2⟩])
    | some .more => some ((buf, s), [⟨buf.readableBytes, true, t.2⟩])
    | some (.fail errorCode) =>
      some ((buf, errorCallback s errorCode), [⟨buf.readableBytes, true, t.2⟩])
    | some (.item n message) =>
      let r := retrieve buf n
      (onMessageLoop fuel r.1 (messageCallback s message)).map fun (result, turns) =>
        (result, ⟨buf.readableBytes, true, t.2 ++ r.2⟩ :: turns)

end Loop

def onMessage {σ : Type*} (codec : ProtobufCodecLite) (messageCallback : σ → RpcMetaMessage → σ)
    (errorCallback : σ → ErrorCode → σ) (buf : Buffer) (s : σ) :
    Option ((Buffer × σ) × List Turn) :=
  onMessageLoop (turn codec) messageCallback errorCallback (buf.readableBytes + 1) buf s

end Trace

/-- Every event of a list is in range. -/
def AllInRange (readable : ℕ) (events : List Event) : Prop := ∀ e ∈ events, e.InRange readable

section InRange

variable {readable : ℕ} {events events' : List Event}

@[simp] theorem allInRange_append : AllInRange readable (events ++ events') ↔
    AllInRange readable events ∧ AllInRange readable events' := List.forall_mem_append

@[simp] theorem allInRange_load {buf : Buffer} {offset length : ℤ} :
    AllInRange readable (load buf offset length).2 ↔
      0 ≤ offset ∧ 0 ≤ length ∧ offset + length ≤ readable := by
  simp [AllInRange, load, Event.InRange]

@[simp] theorem allInRange_int {value : ℤ} :
    AllInRange readable (int value).2 ↔ 0 ≤ value ∧ value < 2 ^ 31 := by
  simp [AllInRange, int, Event.InRange]

@[simp] theorem allInRange_uint32 {value : ℤ} :
    AllInRange readable (uint32 value).2 ↔ 0 ≤ value ∧ value < 2 ^ 32 := by
  simp [AllInRange, uint32, Event.InRange]

@[simp] theorem allInRange_sizeT {value : ℤ} :
    AllInRange readable (sizeT value).2 ↔ 0 ≤ value ∧ value < 2 ^ 64 := by
  simp [AllInRange, sizeT, Event.InRange]

lemma int_value {value : ℤ} (hlo : 0 ≤ value) (hhi : value < 2 ^ 31) : (int value).1 = value :=
  toInt32_of_fits (by omega) hhi

lemma uint32_value {value : ℤ} (hlo : 0 ≤ value) (hhi : value < 2 ^ 32) :
    ((uint32 value).1 : ℤ) = value := by
  simp only [uint32, toUInt32]
  omega

lemma sizeT_value {value : ℤ} (hlo : 0 ≤ value) (hhi : value < 2 ^ 64) :
    ((sizeT value).1 : ℤ) = value := by
  simp only [sizeT, toSizeT]
  omega

end InRange

section Functions

variable {codec : ProtobufCodecLite} {buf : Buffer} {offset len : ℤ}

lemma readableBytes_value (hvector : buf.buf.length < 2 ^ 64) :
    (readableBytes buf).1 = buf.readableBytes := by
  have h1 := buf.reader_le_writer
  have h2 := buf.writer_le_size
  have hvalue : ((sizeT (buf.writerIndex - buf.readerIndex)).1 : ℤ) =
      buf.writerIndex - buf.readerIndex := sizeT_value (by omega) (by omega)
  simp only [readableBytes, Buffer.readableBytes]
  omega

lemma readableBytes_inRange {readable : ℕ} (hvector : buf.buf.length < 2 ^ 64) :
    AllInRange readable (readableBytes buf).2 := by
  have h1 := buf.reader_le_writer
  have h2 := buf.writer_le_size
  rw [readableBytes, allInRange_sizeT]
  omega

lemma checksum_value : (checksum buf offset len).1 =
    ProtobufCodecLite.checksum (buf.peek.drop offset.toNat) len := by
  simp only [checksum, load, uint32, ProtobufCodecLite.checksum, Int.toNat_natCast]

lemma checksum_inRange {readable : ℕ} (ho : 0 ≤ offset) (hlo : 0 ≤ len) (hhi : len < 2 ^ 32)
    (hfit : offset + len ≤ readable) : AllInRange readable (checksum buf offset len).2 := by
  have hvalue := uint32_value hlo hhi
  rw [checksum, allInRange_append, allInRange_uint32, allInRange_load]
  omega

lemma validateChecksum_value (ho : 0 ≤ offset) (hlo : 4 ≤ len) (hhi : len < 2 ^ 31) :
    (validateChecksum buf offset len).1 =
      ProtobufCodecLite.validateChecksum (buf.peek.drop offset.toNat) len := by
  have hdrop : (offset + len - kChecksumLen).toNat = offset.toNat + (len - kChecksumLen).toNat := by
    rw [kChecksumLen]
    omega
  have hint : (int (len - kChecksumLen)).1 = len - kChecksumLen := by
    rw [kChecksumLen]
    exact int_value (by omega) (by omega)
  simp only [validateChecksum, ProtobufCodecLite.validateChecksum, hint, checksum_value, load,
    hdrop, List.drop_drop]
  rfl

lemma validateChecksum_inRange {readable : ℕ} (ho : 0 ≤ offset) (hlo : 4 ≤ len)
    (hhi : len < 2 ^ 31) (hfit : offset + len ≤ readable) :
    AllInRange readable (validateChecksum buf offset len).2 := by
  have hint : (int (len - 4)).1 = len - 4 := int_value (by omega) (by omega)
  have hsum : AllInRange readable (checksum buf offset (len - 4)).2 :=
    checksum_inRange ho (by omega) (by omega) (by omega)
  simp only [validateChecksum, allInRange_append, allInRange_load, allInRange_int, hint,
    kChecksumLen]
  exact ⟨⟨by omega, by omega⟩, hsum⟩

/-- The lengths that `parse` computes: without the checksum, of the tag, and of the payload. -/
lemma dataLen_value (hmin : codec.tag.length + 4 ≤ len) (hhi : len < 2 ^ 31) :
    (int (len - 4)).1 = len - 4 ∧ (int (codec.tag.length : ℤ)).1 = codec.tag.length ∧
      (int (len - 4 - codec.tag.length)).1 = len - 4 - codec.tag.length ∧
      ((sizeT (len - 4 - codec.tag.length)).1 : ℤ) = len - 4 - codec.tag.length :=
  ⟨int_value (by omega) (by omega), int_value (by omega) (by omega),
    int_value (by omega) (by omega), sizeT_value (by omega) (by omega)⟩

lemma parse_value (ho : 0 ≤ offset) (hmin : codec.tag.length + 4 ≤ len) (hhi : len < 2 ^ 31) :
    (parse codec buf offset len).1 = codec.parse (buf.peek.drop offset.toNat) len := by
  obtain ⟨hn, ht, hd, hsize⟩ := dataLen_value hmin hhi
  have hdata : (sizeT (len - 4 - codec.tag.length)).1 =
      (len - 4 - toInt32 codec.tag.length).toNat := by
    rw [toInt32_of_fits (by omega) (by omega)]
    omega
  have hdrop : (offset + codec.tag.length).toNat = offset.toNat + codec.tag.length := by omega
  simp only [parse, ProtobufCodecLite.parse, validateChecksum_value ho (by omega) hhi,
    kChecksumLen, hn, ht, hd, load, Int.toNat_natCast, hdata, hdrop, List.drop_drop]
  split_ifs
  · cases codec.runtime.parseFromArray ((buf.peek.drop (offset.toNat + codec.tag.length)).take
      (len - 4 - toInt32 codec.tag.length).toNat) <;> rfl
  · rfl
  · rfl

lemma parse_inRange {readable : ℕ} (ho : 0 ≤ offset) (hmin : codec.tag.length + 4 ≤ len)
    (hhi : len < 2 ^ 31) (hfit : offset + len ≤ readable) :
    AllInRange readable (parse codec buf offset len).2 := by
  have hvalid : AllInRange readable (validateChecksum buf offset len).2 :=
    validateChecksum_inRange ho (by omega) hhi hfit
  have htag : AllInRange readable (load buf offset codec.tag.length).2 := by
    rw [allInRange_load]
    omega
  obtain ⟨hn, ht, hd, hsize⟩ := dataLen_value hmin hhi
  have harray : ((load buf (offset + codec.tag.length)
      (sizeT (len - 4 - codec.tag.length)).1).1.length : ℤ) ≤ len := by
    rw [load, List.length_take]
    omega
  simp only [parse, kChecksumLen, hn, ht, hd]
  split_ifs
  · simp only [allInRange_append, allInRange_int, allInRange_sizeT, allInRange_load]
    refine ⟨⟨⟨⟨⟨⟨⟨hvalid, ?_⟩, ?_⟩, ?_⟩, ?_⟩, ?_⟩, ?_⟩, ?_⟩ <;> omega
  · rw [allInRange_append]
    exact ⟨hvalid, htag⟩
  · exact hvalid

section Turn

variable (htag : codec.tag.length ≤ kMaxMessageLen) (hvector : buf.buf.length < 2 ^ 64)

include htag in
lemma tagInt : codec.TagInt := by
  simp only [kMaxMessageLen] at htag
  simp only [TagInt, kChecksumLen]
  omega

include htag in
lemma shortest_eq : codec.kMinMessageLen + kHeaderLen = codec.tag.length + 8 := by
  rw [kMinMessageLen_eq (tagInt htag), kChecksumLen, kHeaderLen]
  omega

include htag in
lemma guard_value :
    (uint32 (int (codec.kMinMessageLen + kHeaderLen)).1).1 = codec.tag.length + 8 := by
  simp only [kMaxMessageLen] at htag
  rw [shortest_eq (by simpa only [kMaxMessageLen] using htag)]
  rw [int_value (by omega) (by omega)]
  have hvalue : ((uint32 (codec.tag.length + 8)).1 : ℤ) = codec.tag.length + 8 :=
    uint32_value (by omega) (by omega)
  omega

include htag in
/-- The size of a whole frame, for an announced length within the limits. -/
lemma whole_value {len : ℤ} (hlen : ¬ (len > kMaxMessageLen ∨ len < codec.kMinMessageLen)) :
    0 ≤ kHeaderLen + len ∧ kHeaderLen + len < 2 ^ 31 ∧
      (sizeT (int (kHeaderLen + len)).1).1 = toSizeT (kHeaderLen + len) := by
  rw [kMinMessageLen_eq (tagInt htag), kChecksumLen, kMaxMessageLen] at hlen
  have hbounds : 0 ≤ kHeaderLen + len ∧ kHeaderLen + len < 2 ^ 31 := by
    rw [kHeaderLen]
    omega
  refine ⟨hbounds.1, hbounds.2, ?_⟩
  rw [int_value hbounds.1 hbounds.2]
  rfl

include htag hvector

/-- The trace follows the decoder. -/
theorem turn_value : (turn codec buf).1.getD .more = codec.onMessageTurn buf := by
  have hguard := guard_value htag
  have hmin := kMinMessageLen_eq (tagInt htag)
  have hshort : toUInt32 (codec.kMinMessageLen + kHeaderLen) = codec.tag.length + 8 := by
    rw [shortest_eq htag, toUInt32]
    simp only [kMaxMessageLen] at htag
    omega
  have hhead : (load buf 0 4).1 = buf.peek.take 4 := rfl
  simp only [turn, onMessageTurn, hguard, hshort, readableBytes_value hvector, hhead]
  generalize networkToHost32 (buf.peek.take 4) = len
  by_cases henter : codec.tag.length + 8 ≤ buf.readableBytes
  swap
  · simp only [henter, ↓reduceIte, Option.getD_none]
  by_cases hbad : len > kMaxMessageLen ∨ len < codec.kMinMessageLen
  · simp only [henter, hbad, ↓reduceIte, Option.getD_some]
  obtain ⟨-, -, hwhole⟩ := whole_value htag hbad
  have hparse : (parse codec buf kHeaderLen len).1 =
      codec.parse (buf.peek.drop kHeaderLen.toNat) len := by
    simp only [kMaxMessageLen, hmin, kChecksumLen] at hbad
    exact parse_value (by decide) (by omega) (by omega)
  simp only [henter, hbad, hwhole, hparse, ↓reduceIte]
  by_cases hpart : toSizeT (kHeaderLen + len) ≤ buf.readableBytes
  · simp only [hpart, ↓reduceIte]
    cases codec.parse (buf.peek.drop kHeaderLen.toNat) len <;> rfl
  · simp only [hpart, ↓reduceIte, Option.getD_some]

/-- Everything that one turn of the loop reads and computes is in range. -/
theorem turn_inRange : AllInRange buf.readableBytes (turn codec buf).2 := by
  have hguard := guard_value htag
  have hmin := kMinMessageLen_eq (tagInt htag)
  have hread : AllInRange buf.readableBytes (readableBytes buf).2 := readableBytes_inRange hvector
  have htested : AllInRange buf.readableBytes (int (codec.kMinMessageLen + kHeaderLen)).2 ∧
      AllInRange buf.readableBytes
        (uint32 (int (codec.kMinMessageLen + kHeaderLen)).1).2 := by
    rw [shortest_eq htag]
    simp only [kMaxMessageLen] at htag
    rw [allInRange_int, allInRange_uint32, int_value (by omega) (by omega)]
    omega
  simp only [turn, hguard, readableBytes_value hvector]
  generalize networkToHost32 (load buf 0 4).1 = len
  by_cases henter : codec.tag.length + 8 ≤ buf.readableBytes
  swap
  · simp only [henter, ↓reduceIte, allInRange_append]
    exact ⟨⟨hread, htested.1⟩, htested.2⟩
  have hhead : AllInRange buf.readableBytes (load buf 0 4).2 := by
    rw [allInRange_load]
    omega
  by_cases hbad : len > kMaxMessageLen ∨ len < codec.kMinMessageLen
  · simp only [henter, hbad, ↓reduceIte, allInRange_append]
    exact ⟨⟨⟨hread, htested.1⟩, htested.2⟩, hhead⟩
  obtain ⟨hlo, hhi, hwhole⟩ := whole_value htag hbad
  have hsized : AllInRange buf.readableBytes (int (kHeaderLen + len)).2 ∧
      AllInRange buf.readableBytes (sizeT (int (kHeaderLen + len)).1).2 := by
    rw [allInRange_int, allInRange_sizeT, int_value hlo hhi]
    omega
  simp only [henter, hbad, hwhole, ↓reduceIte]
  by_cases hpart : toSizeT (kHeaderLen + len) ≤ buf.readableBytes
  swap
  · simp only [hpart, ↓reduceIte, allInRange_append]
    exact ⟨⟨⟨⟨⟨⟨hread, htested.1⟩, htested.2⟩, hhead⟩, hread⟩, hsized.1⟩, hsized.2⟩
  have hparse : AllInRange buf.readableBytes (parse codec buf kHeaderLen len).2 := by
    have hsize := toSizeT_of_nonneg hlo (by omega)
    simp only [kMaxMessageLen, hmin, kChecksumLen] at hbad
    exact parse_inRange (by decide) (by omega) (by omega) (by omega)
  simp only [hpart, ↓reduceIte]
  cases (parse codec buf kHeaderLen len).1 with
  | ok message =>
    simp only [allInRange_append]
    exact ⟨⟨⟨⟨⟨⟨⟨⟨⟨hread, htested.1⟩, htested.2⟩, hhead⟩, hread⟩, hsized.1⟩, hsized.2⟩, hparse⟩,
      hsized.1⟩, hsized.2⟩
  | error errorCode =>
    simp only [allInRange_append]
    exact ⟨⟨⟨⟨⟨⟨⟨hread, htested.1⟩, htested.2⟩, hhead⟩, hread⟩, hsized.1⟩, hsized.2⟩, hparse⟩

/-- The body of the loop is entered only with a minimal frame to read. -/
theorem turn_entered {v : Verdict RpcMetaMessage ErrorCode} (h : (turn codec buf).1 = some v) :
    codec.tag.length + 8 ≤ buf.readableBytes := by
  have hguard := guard_value htag
  simp only [turn, hguard, readableBytes_value hvector] at h
  by_contra hshort
  simp only [hshort, ↓reduceIte, reduceCtorEq] at h

end Turn

lemma retrieve_inRange {n readable : ℕ} (hvector : buf.buf.length < 2 ^ 64) :
    AllInRange readable (retrieve buf n).2 := by
  have hread : AllInRange readable (readableBytes buf).2 := readableBytes_inRange hvector
  have h1 := buf.reader_le_writer
  have h2 := buf.writer_le_size
  simp only [retrieve, readableBytes_value hvector]
  split_ifs with hlt
  · simp only [allInRange_append, allInRange_sizeT]
    simp only [Buffer.readableBytes] at hlt
    exact ⟨hread, by omega, by omega⟩
  · simpa using hread

lemma buf_retrieve (n : ℕ) : (buf.retrieve n).buf = buf.buf := by
  unfold Buffer.retrieve Buffer.retrieveAll
  split <;> rfl

end Functions

section Run

variable {codec : ProtobufCodecLite} {σ : Type*} (messageCallback : σ → RpcMetaMessage → σ)
  (errorCallback : σ → ErrorCode → σ)

/-- Every turn of a loop is in range, and so many bytes suffice for the bodies it entered. -/
structure RunInRange (minFrame readable : ℕ) (turns : List Turn) : Prop where
  events : ∀ t ∈ turns, AllInRange t.readable t.events
  iterations : (turns.filter Turn.entered).length * minFrame ≤ readable

/-- A loop that ends with its first turn. -/
lemma runInRange_last {minFrame readable : ℕ} {entered : Bool} {events : List Event}
    (hevents : AllInRange readable events) (h : entered = true → minFrame ≤ readable) :
    RunInRange minFrame readable [⟨readable, entered, events⟩] := by
  refine ⟨?_, ?_⟩
  · intro t ht
    rw [List.mem_singleton.mp ht]
    exact hevents
  · cases entered with
    | false => simp
    | true => simpa using h rfl

/-- A turn that takes a frame, before the rest of the loop. -/
lemma runInRange_cons {minFrame readable rest : ℕ} {events : List Event} {turns : List Turn}
    (hevents : AllInRange readable events) (hmin : rest + minFrame ≤ readable)
    (h : RunInRange minFrame rest turns) :
    RunInRange minFrame readable (⟨readable, true, events⟩ :: turns) := by
  refine ⟨?_, ?_⟩
  · intro t ht
    rcases List.mem_cons.mp ht with rfl | ht
    · exact hevents
    · exact h.events t ht
  · have hcount := h.iterations
    rw [List.filter_cons_of_pos rfl, List.length_cons, Nat.succ_mul]
    omega

/-- A traced body that follows `base` on a buffer, within range. -/
structure Follows (body : Buffer → Option (Verdict RpcMetaMessage ErrorCode) × List Event)
    (base : Buffer → Verdict RpcMetaMessage ErrorCode) (minFrame : ℕ) (buf : Buffer) : Prop where
  value : (body buf).1.getD .more = base buf
  inRange : AllInRange buf.readableBytes (body buf).2
  entered : ∀ v, (body buf).1 = some v → minFrame ≤ buf.readableBytes
  item : ∀ n message, base buf = .item n message → minFrame ≤ n ∧ n ≤ buf.readableBytes

theorem follows_turn (htag : codec.tag.length ≤ kMaxMessageLen) {buf : Buffer}
    (hvector : buf.buf.length < 2 ^ 64) :
    Follows (turn codec) codec.onMessageTurn (codec.tag.length + 8) buf where
  value := turn_value htag hvector
  inRange := turn_inRange htag hvector
  entered _ h := turn_entered htag hvector h
  item n message h := by
    rw [onMessageTurn_eq (tagInt htag)] at h
    have hle := (next_item_bounds h).2
    rw [Buffer.readable_length] at hle
    exact ⟨next_item_min h, hle⟩

theorem onMessageLoop_inRange
    {body : Buffer → Option (Verdict RpcMetaMessage ErrorCode) × List Event}
    {base : Buffer → Verdict RpcMetaMessage ErrorCode} {minFrame : ℕ} (hpos : 0 < minFrame)
    (hbody : ∀ buf : Buffer, buf.buf.length < 2 ^ 64 → Follows body base minFrame buf) {fuel : ℕ}
    {buf : Buffer} (hvector : buf.buf.length < 2 ^ 64) (hfuel : buf.readableBytes < fuel) (s : σ) :
    ∃ result turns,
      onMessageLoop body messageCallback errorCallback fuel buf s = some (result, turns) ∧
      ProtobufCodecLite.onMessageLoop base messageCallback errorCallback fuel buf s = some result ∧
      RunInRange minFrame buf.readableBytes turns := by
  induction fuel generalizing buf s with
  | zero => exact absurd hfuel (Nat.not_lt_zero _)
  | succ fuel ih =>
    obtain ⟨hvalue, hrange, henter, hitem⟩ := hbody buf hvector
    rw [onMessageLoop, ProtobufCodecLite.onMessageLoop]
    cases hturn : (body buf).1 with
    | none =>
      rw [hturn, Option.getD_none] at hvalue
      rw [← hvalue]
      exact ⟨_, _, rfl, rfl, runInRange_last hrange (by simp)⟩
    | some v =>
      have hroom := henter v hturn
      rw [hturn, Option.getD_some] at hvalue
      rw [← hvalue]
      cases v with
      | more => exact ⟨_, _, rfl, rfl, runInRange_last hrange fun _ => hroom⟩
      | fail errorCode => exact ⟨_, _, rfl, rfl, runInRange_last hrange fun _ => hroom⟩
      | item n message =>
        obtain ⟨hmin, hle⟩ := hitem n message hvalue.symm
        have hrest : (buf.retrieve n).readableBytes = buf.readableBytes - n := by
          rw [← Buffer.readable_length, Buffer.readable_retrieve, List.length_drop,
            Buffer.readable_length]
        have hvector' : (buf.retrieve n).buf.length < 2 ^ 64 := by rwa [buf_retrieve]
        obtain ⟨result, turns, htrace, hloop, hrun⟩ := ih hvector' (by omega)
          (messageCallback s message)
        refine ⟨result, ⟨buf.readableBytes, true, (body buf).2 ++ (retrieve buf n).2⟩ :: turns,
          ?_, hloop, ?_⟩
        · simp only [retrieve]
          rw [htrace, Option.map_some]
        · rw [hrest] at hrun
          refine runInRange_cons ?_ (by omega) hrun
          rw [allInRange_append]
          exact ⟨hrange, retrieve_inRange hvector⟩

/-- Whatever the buffer holds, with a tag no longer than any message may be: the loop returns what
`onMessage` returns, every read is of bytes that are readable at that moment, every length is
non-negative and none wraps, and the body runs at most once for each minimal frame that the
readable bytes have room for. The size of a vector is a `size_t`. -/
theorem onMessage_inRange (htag : codec.tag.length ≤ kMaxMessageLen) (buf : Buffer)
    (hvector : buf.buf.length < 2 ^ 64) (s : σ) :
    ∃ result turns,
      onMessage codec messageCallback errorCallback buf s = some (result, turns) ∧
      codec.onMessage messageCallback errorCallback buf s = some result ∧
      (∀ t ∈ turns, ∀ e ∈ t.events, e.InRange t.readable) ∧
      ((turns.filter Turn.entered).length : ℤ) ≤
        buf.readableBytes / (codec.kMinMessageLen + kHeaderLen) := by
  obtain ⟨result, turns, htrace, hrun, hevents, hcount⟩ := onMessageLoop_inRange messageCallback
    errorCallback (Nat.succ_pos _) (fun _ h => follows_turn htag h) hvector (Nat.lt_succ_self _) s
  refine ⟨result, turns, htrace, hrun, hevents, ?_⟩
  rw [shortest_eq htag, Int.le_ediv_iff_mul_le (by omega)]
  exact_mod_cast hcount

/-- Twelve bytes `FF`, which announce a frame of `-1` bytes. -/
def announcesMinusOne : Buffer := (Buffer.new 16).append (List.replicate 12 255)

theorem onMessage_inRange_announcesMinusOne : ∃ result turns,
    onMessage testCodec Delivery.message Delivery.error announcesMinusOne ⟨[], []⟩ =
      some (result, turns) ∧
    (∀ t ∈ turns, ∀ e ∈ t.events, e.InRange t.readable) ∧
    ((turns.filter Turn.entered).length : ℤ) ≤ 1 := by
  have hlen : (announcesMinusOne.readableBytes : ℤ) = 12 := by decide +kernel
  have hshort : testCodec.kMinMessageLen + kHeaderLen = 12 := by decide +kernel
  obtain ⟨result, turns, htrace, -, hevents, hcount⟩ := onMessage_inRange Delivery.message
    Delivery.error (by decide +kernel : testCodec.tag.length ≤ kMaxMessageLen) announcesMinusOne
    (by decide +kernel) ⟨[], []⟩
  rw [hlen, hshort] at hcount
  exact ⟨result, turns, htrace, hevents, hcount⟩

end Run

end RpcMuduo.DecodeBounds
