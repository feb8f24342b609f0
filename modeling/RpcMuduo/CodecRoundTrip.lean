import RpcMuduo.CodecStream

/-!
# Round trip of the codec over a connection

Chunks arrive one by one in the input buffer of a connection and `onMessage` runs after each.
-/
namespace RpcMuduo.CodecRoundTrip
open StreamDecoder ProtobufCodecLite
open RpcMeta (RpcMetaMessage testMessage testRuntime testReply)

/-- What one call of `onMessage` hands to its two callbacks. -/
structure Delivery where
  messages : List RpcMetaMessage
  errors : List ErrorCode
  deriving DecidableEq

def Delivery.message (d : Delivery) (message : RpcMetaMessage) : Delivery :=
  { d with messages := d.messages ++ [message] }

def Delivery.error (d : Delivery) (errorCode : ErrorCode) : Delivery :=
  { d with errors := d.errors ++ [errorCode] }

def feedChunks (codec : ProtobufCodecLite) : Buffer → List Bytes → Option (Buffer × List Delivery)
  | buf, [] => some (buf, [])
  | buf, chunk :: chunks =>
    (codec.onMessage Delivery.message Delivery.error (buf.append chunk) ⟨[], []⟩).bind fun r =>
      (feedChunks codec r.1 chunks).map fun rest => (rest.1, r.2 :: rest.2)

variable (codec : ProtobufCodecLite)

lemma foldl_message (messages : List RpcMetaMessage) (d : Delivery) :
    messages.foldl Delivery.message d = ⟨d.messages ++ messages, d.errors⟩ := by
  induction messages generalizing d with
  | nil => simp
  | cons message messages ih => simp [ih, Delivery.message]

/-- The delivery of a pass is its items and its error. -/
def delivery (r : Drained UInt8 RpcMetaMessage ErrorCode) : Delivery :=
  ⟨r.items, r.error.toList⟩

lemma deliver_eq_delivery (r : Drained UInt8 RpcMetaMessage ErrorCode) :
    deliver Delivery.message Delivery.error r ⟨[], []⟩ = delivery r := by
  unfold deliver delivery
  cases r.error with
  | none => simp [foldl_message]
  | some e => simp [foldl_message, Delivery.error]

/-- Feeding the buffer feeds the decoder. -/
theorem feedChunks_feed {codec : ProtobufCodecLite} (h : codec.TagInt) (buf : Buffer)
    (chunks : List Bytes) : ∃ buf',
      feedChunks codec buf chunks =
        some (buf', (feed codec.decoder buf.readable chunks).map delivery) ∧
      buf'.readable = (((feed codec.decoder buf.readable chunks).map Drained.rest).getLast?).getD
        buf.readable := by
  induction chunks generalizing buf with
  | nil => exact ⟨buf, by simp [feedChunks, feed], by simp [feed]⟩
  | cons chunk chunks ih =>
    obtain ⟨mid, hmid, hrest⟩ := onMessage_drain Delivery.message Delivery.error h
      (buf.append chunk) ⟨[], []⟩
    rw [Buffer.readable_append] at hmid hrest
    rw [deliver_eq_delivery] at hmid
    obtain ⟨buf', hfeed, hlast⟩ := ih mid
    rw [hrest] at hfeed hlast
    refine ⟨buf', by simp [feedChunks, hmid, hfeed, feed], ?_⟩
    rw [hlast]
    simp only [feed, List.map_cons, List.getLast?_cons, Option.getD_some]

/-- A tag too long for any frame wraps the guard of the loop at worst to zero, and then the
zeros of a fresh vector announce a frame that is not there. -/
lemma onMessageTurn_new (codec : ProtobufCodecLite) (initialSize : ℕ) :
    codec.onMessageTurn (Buffer.new initialSize) = .more := by
  have hempty : (Buffer.new initialSize).readableBytes = 0 := by
    rw [← Buffer.readable_length, Buffer.readable_new, List.length_nil]
  have hpeek : (Buffer.new initialSize).peek.take 4 =
      List.replicate (min 4 initialSize) (0 : UInt8) := by
    simp [Buffer.peek, Buffer.new]
  have hzero : networkToHost32 (List.replicate (min 4 initialSize) 0) = 0 := by
    have hle : min 4 initialSize ≤ 4 := min_le_left _ _
    interval_cases min 4 initialSize <;> decide
  have hmin := CInt.toInt32_bounds (codec.tag.length + kChecksumLen)
  unfold onMessageTurn
  split_ifs with hguard
  · rw [hempty] at hguard
    have hneg : codec.kMinMessageLen = -4 := by
      unfold kMinMessageLen
      simp only [kMinMessageLen, kHeaderLen, CInt.toUInt32] at hguard
      omega
    have hfine : ¬ ((0 : ℤ) > kMaxMessageLen ∨ (0 : ℤ) < -4) := by decide
    have hwait : ¬ CInt.toSizeT (kHeaderLen + 0) ≤ 0 := by decide
    rw [hpeek, hzero, hempty, hneg]
    simp only [hfine, hwait, ↓reduceIte]
  · rfl

lemma append_nil_new (initialSize : ℕ) :
    (Buffer.new initialSize).append [] = Buffer.new initialSize := by
  simp [Buffer.append, Buffer.ensureWritableBytes, Buffer.storeAtWriter, Buffer.hasWritten,
    Buffer.new, Block.overwrite]

/-- Empty chunks never reach the callbacks, whatever the tag is. -/
lemma feedChunks_new {chunks : List Bytes} (h : chunks.flatten = []) (initialSize : ℕ) :
    feedChunks codec (Buffer.new initialSize) chunks =
      some (Buffer.new initialSize, List.replicate chunks.length ⟨[], []⟩) := by
  induction chunks with
  | nil => rfl
  | cons chunk chunks ih =>
    rw [List.flatten_cons, List.append_eq_nil_iff] at h
    obtain ⟨rfl, hrest⟩ := h
    have hloop := onMessageLoop_more Delivery.message Delivery.error
      ((Buffer.new initialSize).readableBytes) (⟨[], []⟩ : Delivery)
      (onMessageTurn_new codec initialSize)
    rw [feedChunks, append_nil_new, onMessage, hloop, Option.bind_some, ih hrest,
      Option.map_some, List.length_cons, List.replicate_succ]

/-- The frames of messages that all fit the limit, as `fillEmptyBuffer` makes them. -/
lemma fillEmptyBuffer_frames {messages : List RpcMetaMessage}
    (hsize : ∀ m ∈ messages, codec.tag.length + (codec.runtime.serialize m).length +
      kChecksumLen ≤ kMaxMessageLen) :
    List.Forall₂ (fun m f => (codec.fillEmptyBuffer (Buffer.new Buffer.kInitialSize) m).map
      Buffer.readable = .ok f) messages (messages.map codec.frame) := by
  rw [List.forall₂_map_right_iff, List.forall₂_same]
  intro m hm
  have h := hsize m hm
  simp only [kMaxMessageLen, kChecksumLen] at h
  obtain ⟨b, hfill, hread⟩ := codec.fillEmptyBuffer_ok m (Buffer.readable_new _) le_rfl
    (by simp only [kChecksumLen]; omega)
  rw [hfill, Except.map, hread]

/-- With a tag that fits, feeding the frames delivers them as they become whole. -/
lemma feedChunks_frames {codec : ProtobufCodecLite} (htag : codec.TagFits)
    {messages : List RpcMetaMessage}
    (hframed : List.Forall₂ (Framed codec.decoder) (messages.map codec.frame) messages)
    {buf : Buffer} (hbuf : buf.readable = []) {chunks : List Bytes}
    (hc : chunks.flatten = (messages.map codec.frame).flatten) :
    ∃ buf' deliveries,
      feedChunks codec buf chunks = some (buf', deliveries) ∧
      deliveries.length = chunks.length ∧
      (∀ d ∈ deliveries, d.errors = []) ∧
      buf'.readable = [] ∧
      ∀ k, ∃ j ≤ messages.length,
        (deliveries.take k).flatMap Delivery.messages = messages.take j ∧
        ∀ i ≤ messages.length, i ≤ j ↔
          ((messages.map codec.frame).take i).flatten.length ≤ (chunks.take k).flatten.length := by
  obtain ⟨buf', hfeed, hrest⟩ := feedChunks_feed htag.tagInt buf chunks
  obtain ⟨herr, htake⟩ := feed_frames codec.decoder hframed hc
  have hlast := feed_rest codec.decoder [] chunks
  obtain ⟨j, hj, hdrain, hwhole⟩ := drain_frames codec.decoder hframed (List.prefix_refl _)
  rw [drain_more codec.decoder codec.decoder.next_nil] at hlast
  simp only [List.nil_append, hc, hdrain] at hlast
  rw [hbuf] at hfeed hrest
  refine ⟨buf', _, hfeed, ?_, ?_, ?_, ?_⟩
  · rw [List.length_map, feed_length]
  · intro d hd
    obtain ⟨r, hr, rfl⟩ := List.mem_map.mp hd
    simp [delivery, herr r hr]
  · have hall : (messages.map codec.frame).length ≤ j :=
      (hwhole _ le_rfl).mpr (by rw [List.take_length])
    rw [hrest, hlast, List.take_of_length_le hall, List.drop_length]
  · intro k
    obtain ⟨j, hj, hitems, hi⟩ := htake k
    rw [List.length_map] at hj hi
    refine ⟨j, hj, ?_, hi⟩
    rw [← hitems, ← List.map_take, List.flatMap_map]
    rfl

/-- Every message that fits the limit is framed by `fillEmptyBuffer`, and the frames of any
list of them, appended in any chunks to the buffer of a connection, come out as the same
messages: each at the first call of `onMessage` at which its frame is whole, none twice, no
error, and nothing is left in the buffer. -/
theorem onMessage_stream_roundtrip (messages : List RpcMetaMessage)
    (hsize : ∀ m ∈ messages, codec.tag.length + (codec.runtime.serialize m).length +
      kChecksumLen ≤ kMaxMessageLen)
    (hparse : ∀ m ∈ messages,
      codec.runtime.parseFromArray (codec.runtime.serialize m) = some m) :
    ∃ frames : List Bytes,
      List.Forall₂ (fun m f => (codec.fillEmptyBuffer (Buffer.new Buffer.kInitialSize) m).map
        Buffer.readable = .ok f) messages frames ∧
      ∀ chunks : List Bytes, chunks.flatten = frames.flatten →
        ∃ buf' deliveries,
          feedChunks codec (Buffer.new Buffer.kInitialSize) chunks = some (buf', deliveries) ∧
          deliveries.length = chunks.length ∧
          deliveries.flatMap Delivery.messages = messages ∧
          (∀ d ∈ deliveries, d.errors = []) ∧
          buf'.readable = [] ∧
          ∀ k, ∃ j ≤ messages.length,
            (deliveries.take k).flatMap Delivery.messages = messages.take j ∧
            ∀ i ≤ messages.length,
              i ≤ j ↔ (frames.take i).flatten.length ≤ (chunks.take k).flatten.length := by
  refine ⟨messages.map codec.frame, fillEmptyBuffer_frames codec hsize, ?_⟩
  intro chunks hc
  cases messages with
  | nil =>
    refine ⟨_, _, feedChunks_new codec (by simpa using hc) _, by simp, by simp, ?_, by simp, ?_⟩
    · intro d hd
      rw [List.eq_of_mem_replicate hd]
    · intro k
      exact ⟨0, by simp, by simp +contextual, by simp⟩
  | cons m ms =>
    have htag : codec.TagFits := by
      have h := hsize m (by simp)
      unfold TagFits
      omega
    have hframed : List.Forall₂ (Framed codec.decoder) ((m :: ms).map codec.frame) (m :: ms) := by
      rw [List.forall₂_map_left_iff, List.forall₂_same]
      intro x hx
      exact framed_frame (hsize x hx) (hparse x hx)
    obtain ⟨buf', deliveries, hfeed, hlen, herr, hread, htake⟩ :=
      feedChunks_frames htag hframed (Buffer.readable_new Buffer.kInitialSize) hc
    refine ⟨buf', deliveries, hfeed, hlen, ?_, herr, hread, htake⟩
    obtain ⟨j, hj, hitems, hi⟩ := htake deliveries.length
    have hall : (m :: ms).length ≤ j := by
      refine (hi _ le_rfl).mpr ?_
      rw [hlen, List.take_length, hc]
      rw [← List.length_map codec.frame, List.take_length]
    rw [List.take_length, List.take_of_length_le hall] at hitems
    exact hitems

/-- The codec of the codec test, with its tag "RPC0". -/
def testCodec : ProtobufCodecLite := ⟨testRuntime, [82, 80, 67, 48]⟩

theorem onMessage_stream_roundtrip_testMessage :
    ∃ frames : List Bytes,
      List.Forall₂ (fun m f => (testCodec.fillEmptyBuffer (Buffer.new Buffer.kInitialSize) m).map
        Buffer.readable = .ok f) [testMessage, testMessage] frames ∧
      ∀ chunks : List Bytes, chunks.flatten = frames.flatten → ∃ buf' deliveries,
        feedChunks testCodec (Buffer.new Buffer.kInitialSize) chunks = some (buf', deliveries) ∧
        deliveries.flatMap Delivery.messages = [testMessage, testMessage] := by
  obtain ⟨frames, hframes, h⟩ := onMessage_stream_roundtrip testCodec [testMessage, testMessage]
    (by decide +kernel) (by decide +kernel)
  refine ⟨frames, hframes, fun chunks hc => ?_⟩
  obtain ⟨buf', deliveries, hfeed, -, hmessages, -⟩ := h chunks hc
  exact ⟨buf', deliveries, hfeed, hmessages⟩

end RpcMuduo.CodecRoundTrip
