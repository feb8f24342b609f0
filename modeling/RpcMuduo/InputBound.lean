import RpcMuduo.DecodeBounds
import RpcMuduo.Run

/-!
# What a peer can make the input buffer hold

The receiving side of a connection: `readFd` into the input buffer and `onMessage` of the codec on
it, over and over, with whatever bytes the peer sends. The default error callback ends the
process.
-/
namespace RpcMuduo.InputBound
open Block ProtobufCodecLite StreamDecoder Buffer Run
open RpcMeta (RpcMetaMessage)

variable {σ : Type*}

/-- A process that receives; `user` is what the message callback acts on. -/
structure Receiver (σ : Type*) where
  inBuf : Buffer
  user : σ
  exited : Bool

def initial (user : σ) : Receiver σ := ⟨Buffer.new kInitialSize, user, false⟩

/-- The bytes that `readv` may deliver: with `extrabuf` only where the tail is the smaller. -/
def readLimit (b : Buffer) : ℕ :=
  if b.writableBytes < 65536 then b.writableBytes + 65536 else b.writableBytes

/-- `handleRead` with the bytes of one `readv`; nothing more where the process has ended. -/
def step (codec : ProtobufCodecLite) (messageCallback : σ → RpcMetaMessage → σ) (s : Receiver σ)
    (data : Bytes) : Option (Receiver σ) :=
  if s.exited = false ∧ data.length ≤ readLimit s.inBuf then
    (codec.onMessage (fun p message => (messageCallback p.1 message, p.2)) (fun p _ => (p.1, true))
      (s.inBuf.readFd data) (s.user, false)).map fun result =>
        ⟨result.1, result.2.1, result.2.2⟩
  else none

/-- The size of the longest frame, or of the shortest where the tag makes that one longer. -/
def frameLimit (codec : ProtobufCodecLite) : ℕ :=
  max (codec.tag.length + 8) (4 + kMaxMessageLen.toNat)

section Sizes

variable {b : Buffer} {data : Bytes}

/-- The vector grows only where the free space, in front and behind, does not suffice. -/
lemma buf_makeSpace (len : ℕ) (h : b.writableBytes < len) :
    (b.makeSpace len h).buf.length = b.buf.length ∨
      b.writableBytes + b.prependableBytes < len + kCheapPrepend ∧
        (b.makeSpace len h).buf.length = b.writerIndex + len := by
  unfold makeSpace
  split
  · rename_i hs
    exact Or.inr ⟨hs, resize_length ..⟩
  · exact Or.inl (forwardCopy_length ..)

lemma buf_append (data : Bytes) : (b.append data).buf.length = b.buf.length ∨
    b.writableBytes + b.prependableBytes < data.length + kCheapPrepend ∧
      (b.append data).buf.length = b.writerIndex + data.length := by
  have hfit := (b.ensureWritableBytes data.length).writer_le_size
  have hroom := b.writableBytes_ensureWritableBytes data.length
  have hsame : (b.append data).buf.length = (b.ensureWritableBytes data.length).buf.length := by
    simp only [writableBytes] at hroom
    simp only [append, hasWritten, storeAtWriter]
    rw [overwrite_length (by omega)]
  rw [hsame]
  unfold ensureWritableBytes
  split
  · exact buf_makeSpace _ _
  · exact Or.inl rfl

/-- What does not fit into the tail is appended to a buffer whose tail is full. -/
lemma readFd_append (hfits : ¬ data.length ≤ b.writableBytes) : ∃ filled : Buffer,
    b.readFd data = filled.append (data.drop b.writableBytes) ∧
      filled.buf.length = b.buf.length ∧ filled.readerIndex = b.readerIndex ∧
        filled.writerIndex = b.buf.length := by
  have hfull : (data.take b.writableBytes).length = b.writableBytes := by
    rw [List.length_take]
    omega
  have hroom : b.writerIndex + b.writableBytes = b.buf.length := by
    have hsize := b.writer_le_size
    unfold writableBytes
    omega
  refine ⟨(b.storeAtWriter (data.take b.writableBytes) hfull.le).hasWritten b.writableBytes
    (writableBytes_storeAtWriter b _ hfull.le).ge, dif_neg hfits, ?_, rfl, hroom⟩
  refine overwrite_length ?_
  rw [hfull]
  exact hroom.le

/-- What one `readv` may grow the vector to. -/
lemma buf_readFd (hlimit : data.length ≤ readLimit b) :
    (b.readFd data).buf.length = b.buf.length ∨ data.length ≤ 131071 ∧
      (b.readFd data).buf.length ≤ 65543 + (b.readableBytes + data.length) := by
  have h1 := b.reader_le_writer
  have h2 := b.writer_le_size
  by_cases hfits : data.length ≤ b.writableBytes
  · unfold readFd
    rw [dif_pos hfits]
    simp only [writableBytes] at hfits
    exact Or.inl (overwrite_length (by omega))
  · obtain ⟨filled, hread, hsize, hreader, hwriter⟩ := readFd_append hfits
    have hextra : b.writableBytes < 65536 ∧ data.length ≤ b.writableBytes + 65536 := by
      unfold readLimit at hlimit
      split at hlimit <;> omega
    rw [hread]
    rcases buf_append (b := filled) (data.drop b.writableBytes) with hsame | ⟨hgrows, hgrown⟩
    · exact Or.inl (hsame.trans hsize)
    · rw [hgrown, hwriter]
      simp only [List.length_drop, writableBytes, prependableBytes, kCheapPrepend, hsize, hreader,
        hwriter] at hgrows hextra ⊢
      simp only [readableBytes]
      omega

end Sizes

section Receive

variable {codec : ProtobufCodecLite} (messageCallback : σ → RpcMetaMessage → σ)

/-- The loop of `onMessage` only takes bytes off the buffer. -/
lemma buf_onMessageLoop {turn : Buffer → Verdict RpcMetaMessage ErrorCode}
    {errorCallback : σ → ErrorCode → σ} {fuel : ℕ} {buf : Buffer} {s : σ} {result : Buffer × σ}
    (h : onMessageLoop turn messageCallback errorCallback fuel buf s = some result) :
    result.1.buf = buf.buf := by
  induction fuel generalizing buf s with
  | zero => cases h
  | succ fuel ih =>
    rw [onMessageLoop] at h
    cases hturn : turn buf with
    | more =>
      simp only [hturn, Option.some.injEq] at h
      rw [← h]
    | fail errorCode =>
      simp only [hturn, Option.some.injEq] at h
      rw [← h]
    | item n message =>
      simp only [hturn] at h
      rw [ih h, DecodeBounds.buf_retrieve]

/-- Where the decoder waits it has less than a frame. -/
lemma length_of_more {xs : Bytes} (h : codec.next xs = .more) : xs.length < frameLimit codec := by
  unfold next at h
  unfold frameLimit
  dsimp only at h
  split_ifs at h with hshort hbad hpart
  · omega
  · omega
  · cases hparse : codec.parse (xs.drop 4) (networkToHost32 (xs.take 4)) <;> simp [hparse] at h

/-- One `readv` and the pass of `onMessage` after it. -/
lemma step_receive (htag : codec.TagInt) {s t : Receiver σ} {data : Bytes}
    (h : step codec messageCallback s data = some t) : data.length ≤ readLimit s.inBuf ∧
      t.inBuf.buf.length = (s.inBuf.readFd data).buf.length ∧
      (t.exited = false → t.inBuf.readable.length < frameLimit codec) := by
  simp only [step, Option.ite_none_right_eq_some, Option.map_eq_some_iff] at h
  obtain ⟨⟨-, hlimit⟩, result, hresult, rfl⟩ := h
  refine ⟨hlimit, congrArg List.length (buf_onMessageLoop _ hresult), ?_⟩
  intro hexited
  obtain ⟨buf, hpass, hrest⟩ := onMessage_drain
    (fun p message => (messageCallback p.1 message, p.2)) (fun p _ => (p.1, true)) htag
    (s.inBuf.readFd data) (s.user, false)
  rw [hpass] at hresult
  obtain rfl := Option.some.inj hresult
  have herror : (drain codec.decoder (s.inBuf.readFd data).readable).error = none := by
    cases herr : (drain codec.decoder (s.inBuf.readFd data).readable).error with
    | none => rfl
    | some e => simp [deliver, herr] at hexited
  rw [hrest]
  exact length_of_more (next_rest_more herror)

end Receive

/-- While the process lives the input buffer holds less than a frame between two reads; the vector
has room for a frame and three times the `extrabuf`. -/
structure Bounded (codec : ProtobufCodecLite) (s : Receiver σ) : Prop where
  readable : s.exited = false → s.inBuf.readableBytes < frameLimit codec
  size : s.inBuf.buf.length ≤ frameLimit codec + 3 * 65536 + 5

lemma bounded_step {codec : ProtobufCodecLite} (htag : codec.TagInt)
    {messageCallback : σ → RpcMetaMessage → σ} {s t : Receiver σ} {data : Bytes}
    (h : Bounded codec s) (hstep : step codec messageCallback s data = some t) :
    Bounded codec t := by
  have hlive : s.exited = false := by
    simp only [step, Option.ite_none_right_eq_some] at hstep
    exact hstep.1.1
  obtain ⟨hlimit, hsize, hrest⟩ := step_receive messageCallback htag hstep
  constructor
  · intro hexited
    have hlt := hrest hexited
    rwa [readable_length] at hlt
  · have hbefore := h.readable hlive
    have hold := h.size
    rw [hsize]
    rcases buf_readFd hlimit with hsame | ⟨hdata, hgrown⟩ <;> omega

lemma bounded_initial (codec : ProtobufCodecLite) (user : σ) : Bounded codec (initial user) := by
  constructor
  · intro _
    have hempty : (initial user).inBuf.readableBytes = 0 := rfl
    rw [hempty, frameLimit]
    omega
  · have hsize : (initial user).inBuf.buf.length = kCheapPrepend + kInitialSize :=
      List.length_replicate
    rw [hsize, kCheapPrepend, kInitialSize]
    omega

/-- Whatever a peer sends, however the kernel cuts it, and whatever the message callback does: as
long as the process lives less than one frame of the greatest size waits in the input buffer
between two reads, and its vector never outgrows that frame by more than three times the buffer
on the stack, so that it is far from where its indices wrap. -/
theorem input_buffer_bounded (codec : ProtobufCodecLite) (htag : codec.TagInt)
    (messageCallback : σ → RpcMetaMessage → σ) (user : σ) {datas : List Bytes} {s : Receiver σ}
    (hrun : run (step codec messageCallback) (initial user) datas = some s) :
    (s.exited = false → s.inBuf.readableBytes < frameLimit codec) ∧
      s.inBuf.buf.length ≤ frameLimit codec + 3 * 65536 + 5 := by
  have h : Bounded codec s := run_invariant (fun _ _ _ h hstep => bounded_step htag h hstep)
    (bounded_initial codec user) hrun
  exact ⟨h.readable, h.size⟩

/-- The peer announces a frame of the greatest size and sends its first bytes. -/
theorem input_buffer_bounded_announced : ∃ s,
    run (step CodecRoundTrip.testCodec fun n _ => n + 1) (initial 0)
      [[4, 0, 0, 0, 82, 80], [67, 48, 8, 1, 17, 0, 0]] = some s ∧ s.exited = false ∧
    s.inBuf.readableBytes < 2 ^ 26 + 4 ∧ s.inBuf.buf.length ≤ 2 ^ 26 + 196617 := by
  obtain ⟨s, hs, hlive⟩ := Option.map_eq_some_iff.mp (show (run
    (step CodecRoundTrip.testCodec fun n _ => n + 1) (initial 0)
    [[4, 0, 0, 0, 82, 80], [67, 48, 8, 1, 17, 0, 0]]).map Receiver.exited = some false
    by decide +kernel)
  obtain ⟨hreadable, hsize⟩ := input_buffer_bounded CodecRoundTrip.testCodec
    (by unfold TagInt; decide) (fun n _ => n + 1) 0 hs
  have hlimit : frameLimit CodecRoundTrip.testCodec = 2 ^ 26 + 4 := by decide
  rw [hlimit] at hreadable hsize
  exact ⟨s, hs, hlive, hreadable hlive, hsize⟩

end RpcMuduo.InputBound
