import RpcMuduo.CodecRoundTrip

/-!
# The codec and the cuts of a stream

Any stream, well-formed or not: how it is cut does not show in what `onMessage` delivers, and an
error is the last thing that it delivers.
-/
namespace RpcMuduo.CodecRoundTrip
open CInt StreamDecoder ProtobufCodecLite Buffer
open RpcMeta (testRuntime)

variable (codec : ProtobufCodecLite)

/-- Two ways of cutting one stream deliver the same messages and the same first error, and leave
the same bytes. -/
def CutIndependent : Prop :=
  ∀ chunks chunks' : List Bytes, chunks.flatten = chunks'.flatten →
    ∃ buf buf' deliveries deliveries',
      feedChunks codec (Buffer.new kInitialSize) chunks = some (buf, deliveries) ∧
      feedChunks codec (Buffer.new kInitialSize) chunks' = some (buf', deliveries') ∧
      deliveries.flatMap Delivery.messages = deliveries'.flatMap Delivery.messages ∧
      (deliveries.flatMap Delivery.errors).head? =
        (deliveries'.flatMap Delivery.errors).head? ∧
      buf.readable = buf'.readable

/-- After an error every call reports that error and nothing else, and the buffer only grows. -/
def ErrorsFinal : Prop :=
  ∀ (chunks later : List Bytes) (buf : Buffer) (deliveries : List Delivery) (e : ErrorCode),
    feedChunks codec (Buffer.new kInitialSize) chunks = some (buf, deliveries) →
    e ∈ deliveries.flatMap Delivery.errors →
    ∃ buf', feedChunks codec (Buffer.new kInitialSize) (chunks ++ later) =
        some (buf', deliveries ++ List.replicate later.length ⟨[], [e]⟩) ∧
      buf'.readable = buf.readable ++ later.flatten

section Cuts

variable {codec}

/-- A run of `onMessage` calls is a run of passes of the decoder. -/
lemma feedChunks_new_feed (h : codec.TagInt) (chunks : List Bytes) : ∃ buf,
    feedChunks codec (Buffer.new kInitialSize) chunks =
      some (buf, (feed codec.decoder [] chunks).map delivery) ∧
    buf.readable = ((feed codec.decoder [] chunks).map Drained.rest).getLast?.getD [] := by
  have hfeed := feedChunks_feed h (Buffer.new kInitialSize) chunks
  rwa [readable_new] at hfeed

lemma drain_nil : drain codec.decoder [] = ⟨[], none, []⟩ :=
  drain_more codec.decoder codec.decoder.next_nil

lemma flatMap_messages (passes : List (Drained UInt8 RpcMeta.RpcMetaMessage ErrorCode)) :
    (passes.map delivery).flatMap Delivery.messages = passes.flatMap Drained.items := by
  rw [List.flatMap_map]
  rfl

lemma flatMap_errors (passes : List (Drained UInt8 RpcMeta.RpcMetaMessage ErrorCode)) :
    (passes.map delivery).flatMap Delivery.errors =
      passes.flatMap fun r => r.error.toList := by
  rw [List.flatMap_map]
  rfl

lemma cutIndependent (h : codec.TagInt) : CutIndependent codec := by
  intro chunks chunks' hflatten
  obtain ⟨buf, hrun, hread⟩ := feedChunks_new_feed h chunks
  obtain ⟨buf', hrun', hread'⟩ := feedChunks_new_feed h chunks'
  have hitems := feed_items codec.decoder []
  have hrest := feed_rest codec.decoder []
  have herror : ∀ cs, ((feed codec.decoder [] cs).flatMap fun r => r.error.toList).head? =
      (drain codec.decoder cs.flatten).error := by
    intro cs
    have hnil : (drain codec.decoder []).error = none := by rw [drain_nil]
    have hfirst := feed_error codec.decoder hnil cs
    rwa [drain_nil, List.nil_append] at hfirst
  simp only [drain_nil, List.nil_append] at hitems hrest
  refine ⟨buf, buf', _, _, hrun, hrun', ?_, ?_, ?_⟩
  · rw [flatMap_messages, flatMap_messages, hitems, hitems, hflatten]
  · rw [flatMap_errors, flatMap_errors, herror, herror, hflatten]
  · rw [hread, hread', hrest, hrest, hflatten]

lemma errorsFinal (h : codec.TagInt) : ErrorsFinal codec := by
  intro chunks later buf deliveries e hrun he
  obtain ⟨buf₀, hfeed, hread⟩ := feedChunks_new_feed h chunks
  obtain ⟨buf', hfeed', hread'⟩ := feedChunks_new_feed h (chunks ++ later)
  rw [hrun, Option.some.injEq, Prod.mk.injEq] at hfeed
  obtain ⟨rfl, rfl⟩ := hfeed
  rw [flatMap_errors] at he
  obtain ⟨r, hr, hsome⟩ := List.mem_flatMap.mp he
  have hfail := next_feed_rest codec.decoder hr (Option.mem_toList.mp hsome)
  obtain ⟨hlater, hlast⟩ := feed_fail codec.decoder hfail later
  have hreplicate : (feed codec.decoder (((feed codec.decoder [] chunks).map
      Drained.rest).getLast?.getD []) later).map delivery =
      List.replicate later.length ⟨[], [e]⟩ := by
    rw [List.eq_replicate_iff, List.length_map, feed_length]
    refine ⟨rfl, ?_⟩
    intro d hd
    obtain ⟨r, hr, rfl⟩ := List.mem_map.mp hd
    obtain ⟨hnone, herror⟩ := hlater r hr
    rw [delivery, hnone, herror, Option.toList_some]
  refine ⟨buf', ?_, ?_⟩
  · rw [hfeed', feed_append, List.map_append, hreplicate]
  · rw [hread', feed_append_rest, hlast, hread]

end Cuts

/-- Decoding does not depend on the cuts, and errors are final, for every tag whose size an `int`
holds together with that of the checksum. -/
theorem decoding_cut_independent (h : codec.TagInt) :
    CutIndependent codec ∧ ErrorsFinal codec :=
  ⟨cutIndependent h, errorsFinal h⟩

theorem decoding_cut_independent_testCodec :
    CutIndependent testCodec ∧ ErrorsFinal testCodec :=
  decoding_cut_independent testCodec (by unfold TagInt; decide)

section HugeTag

/-- With such a tag `kMinMessageLen` is `-1`. -/
lemma kMinMessageLen_huge (h : codec.tag.length = 2 ^ 32 - 5) : codec.kMinMessageLen = -1 := by
  unfold kMinMessageLen kChecksumLen toInt32
  omega

/-- Three bytes pass the guard of the loop, which then reads four. -/
lemma turn_three (h : codec.tag.length = 2 ^ 32 - 5) :
    codec.onMessageTurn ((Buffer.new kInitialSize).append [255, 255, 255]) =
      .fail .kInvalidLength := by
  have hguard : toUInt32 (-1 + kHeaderLen) ≤
      ((Buffer.new kInitialSize).append [255, 255, 255]).readableBytes := by decide +kernel
  have hlen : networkToHost32 (((Buffer.new kInitialSize).append [255, 255, 255]).peek.take 4) =
      -256 := by decide +kernel
  rw [onMessageTurn, kMinMessageLen_huge codec h, if_pos hguard, hlen]
  exact if_pos (Or.inr (by decide))

/-- An empty payload does not parse, whatever the checks before it say. -/
lemma parse_huge (h : codec.tag.length = 2 ^ 32 - 5)
    (hempty : codec.runtime.parseFromArray [] = none) (buf : Bytes) :
    ∃ e, codec.parse buf (-1) = .error e := by
  have hdata : (-1 - kChecksumLen - toInt32 codec.tag.length).toNat = 0 := by
    unfold kChecksumLen toInt32
    omega
  unfold parse
  split
  · split
    · simp only [hdata, List.take_zero, hempty]
      exact ⟨_, rfl⟩
    · exact ⟨_, rfl⟩
  · exact ⟨_, rfl⟩

/-- With the fourth byte the length is `-1`, and the call goes past the check of the length. -/
lemma turn_four (h : codec.tag.length = 2 ^ 32 - 5)
    (hempty : codec.runtime.parseFromArray [] = none) :
    ∃ e, e ≠ .kInvalidLength ∧ codec.onMessageTurn
      (((Buffer.new kInitialSize).append [255, 255, 255]).append [255]) = .fail e := by
  generalize hbuf : ((Buffer.new kInitialSize).append [255, 255, 255]).append [255] = buf
  have hguard : toUInt32 (-1 + kHeaderLen) ≤ buf.readableBytes := by
    subst hbuf
    decide +kernel
  have hlen : networkToHost32 (buf.peek.take 4) = -1 := by
    subst hbuf
    decide +kernel
  have hwhole : toSizeT (kHeaderLen + -1) ≤ buf.readableBytes := by
    subst hbuf
    decide +kernel
  have hfine : ¬ ((-1 : ℤ) > kMaxMessageLen ∨ (-1 : ℤ) < -1) := by decide
  obtain ⟨e, hparse⟩ := parse_huge codec h hempty (buf.peek.drop kHeaderLen.toNat)
  refine ⟨e, ?_, ?_⟩
  · rintro rfl
    exact parse_ne_kInvalidLength _ _ hparse
  · rw [onMessageTurn, kMinMessageLen_huge codec h, if_pos hguard, hlen]
    simp only [if_neg hfine, if_pos hwhole, hparse]

/-- Two calls that fail, each in its first turn. -/
lemma feedChunks_fail {buf : Buffer} {chunk chunk' : Bytes} {e e' : ErrorCode}
    (h : codec.onMessageTurn (buf.append chunk) = .fail e)
    (h' : codec.onMessageTurn ((buf.append chunk).append chunk') = .fail e') :
    feedChunks codec buf [chunk] = some (buf.append chunk, [⟨[], [e]⟩]) ∧
      feedChunks codec buf [chunk, chunk'] =
        some ((buf.append chunk).append chunk', [⟨[], [e]⟩, ⟨[], [e']⟩]) := by
  constructor
  · rw [feedChunks, onMessage_fail _ _ h]
    rfl
  · rw [feedChunks, onMessage_fail _ _ h, Option.bind_some, feedChunks, onMessage_fail _ _ h']
    rfl

lemma not_errorsFinal (h : codec.tag.length = 2 ^ 32 - 5)
    (hempty : codec.runtime.parseFromArray [] = none) : ¬ ErrorsFinal codec := by
  intro hfinal
  obtain ⟨e, hne, hfour⟩ := turn_four codec h hempty
  obtain ⟨hfirst, hsecond⟩ := feedChunks_fail codec (turn_three codec h) hfour
  obtain ⟨buf'', hrun, -⟩ := hfinal _ [[255]] _ _ .kInvalidLength hfirst (by simp)
  rw [List.singleton_append, hsecond] at hrun
  simp only [Option.some.injEq, Prod.mk.injEq, List.length_singleton, List.replicate_one,
    List.cons_append, List.nil_append, List.cons.injEq, Delivery.mk.injEq, and_true,
    true_and] at hrun
  exact hne hrun.2

end HugeTag

/-- A tag of `2 ^ 32 - 5` bytes, and the stream `FF FF FF FF` cut after its third byte. -/
theorem error_not_final_hugeTag :
    ¬ (CutIndependent ⟨testRuntime, List.replicate (2 ^ 32 - 5) 0⟩ ∧
      ErrorsFinal ⟨testRuntime, List.replicate (2 ^ 32 - 5) 0⟩) := by
  have hlen : (List.replicate (2 ^ 32 - 5) (0 : UInt8)).length = 2 ^ 32 - 5 :=
    List.length_replicate
  have hempty : testRuntime.parseFromArray [] = none := by decide
  generalize List.replicate (2 ^ 32 - 5) (0 : UInt8) = tag at hlen ⊢
  rintro ⟨-, hfinal⟩
  exact not_errorsFinal ⟨testRuntime, tag⟩ hlen hempty hfinal

end RpcMuduo.CodecRoundTrip
