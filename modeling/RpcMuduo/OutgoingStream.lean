import RpcMuduo.Run
import RpcMuduo.TcpConnection

/-!
# Integrity of the outgoing byte stream

Runs of `sendInLoop` calls and `EPOLLOUT` events on an open connection, for every value that
`::write` may return. The stream is intact exactly along the runs whose steps avoid three
branches: a failed direct write, and a count or a message size that does not survive `int`.
-/
namespace RpcMuduo.OutgoingStream
open CInt TcpConnection Run

inductive Event
  | sendInLoop (message : Bytes) (ret : ℤ)
  | epollout (ret : ℤ)
  deriving DecidableEq

/-- The connection, with the messages passed to `sendInLoop` and how the calls ended. -/
structure State where
  conn : TcpConnection
  messages : List Bytes
  outcomes : List Outcome

def initial (sockfd : ℤ) : State := ⟨TcpConnection.new sockfd, [], []⟩

/-- What `::write` may return when asked to send `size` bytes. -/
def WriteReturns (size : ℕ) (ret : ℤ) : Prop := ret = -1 ∨ (0 ≤ ret ∧ ret ≤ size)

/-- A `std::string` is shorter than `2 ^ 63`; a write result matters only where `::write` is
called. -/
def Possible (s : State) : Event → Prop
  | .sendInLoop message ret =>
    message.length < 2 ^ 63 ∧
      (s.conn.outBuf.readableBytes = 0 → WriteReturns message.length ret)
  | .epollout ret =>
    s.conn.channel.isWriting = true → WriteReturns s.conn.outBuf.readableBytes ret

instance (size : ℕ) (ret : ℤ) : Decidable (WriteReturns size ret) :=
  inferInstanceAs (Decidable (_ ∨ _))

instance (s : State) : (e : Event) → Decidable (Possible s e)
  | .sendInLoop _ _ => inferInstanceAs (Decidable (_ ∧ _))
  | .epollout _ => inferInstanceAs (Decidable (_ → _))

def apply (s : State) : Event → State
  | .sendInLoop message ret =>
    let r := s.conn.sendInLoop message ret
    ⟨r.1, s.messages ++ [message], s.outcomes ++ [r.2]⟩
  | .epollout ret => { s with conn := s.conn.handleWrite ret }

def step (s : State) (e : Event) : Option State :=
  if Possible s e then some (apply s e) else none

/-- Nothing lost, duplicated or reordered, and no call has thrown. -/
def Integrity (s : State) : Prop :=
  s.conn.stream = s.messages.flatten ∧ .outOfRange ∉ s.outcomes

/-- A direct write is harmless when it takes the whole message, or a count below the size that
`int` gives the message; appending is harmless when that size is positive. -/
def SendOk (c : TcpConnection) (message : Bytes) (ret : ℤ) : Prop :=
  if c.outBuf.readableBytes = 0 then
    ret = message.length ∨ (0 ≤ ret ∧ ret < toInt32 message.length)
  else message.length = 0 ∨ 0 < toInt32 message.length

/-- A drain is harmless when the count it gets fits in `int`. -/
def DrainOk (c : TcpConnection) (ret : ℤ) : Prop := c.channel.isWriting = true → ret < 2 ^ 31

def StepOk (s : State) : Event → Prop
  | .sendInLoop message ret => SendOk s.conn message ret
  | .epollout ret => DrainOk s.conn ret

section Stream

variable (c : TcpConnection)

/-- A negative count becomes a `size_t` past the end of every string. -/
theorem bufferRest_neg {message : Bytes} {n : ℤ} (hlen : message.length < 2 ^ 63)
    (hlt : n < toInt32 message.length) (hlo : -2 ^ 31 ≤ n) (hneg : n < 0) :
    c.bufferRest message n = (c, .outOfRange) := by
  have hpos : toSizeT n > message.length := by
    have := toSizeT_of_neg hlo hneg
    omega
  simp [bufferRest, hlt, substr, hpos]

/-- A count within the message appends what the count leaves over. -/
theorem bufferRest_nonneg {message : Bytes} {n : ℤ} (hlt : n < toInt32 message.length)
    (hlo : 0 ≤ n) (hle : n ≤ message.length) :
    (c.bufferRest message n).1.stream = c.stream ++ message.drop n.toNat ∧
      (c.bufferRest message n).2 = .returned := by
  have hn := (toInt32_bounds message.length).2
  have hsz : toSizeT n = n.toNat := by
    have := toSizeT_of_nonneg hlo (by omega)
    omega
  have hpos : ¬ n.toNat > message.length := by omega
  have hall : (message.drop n.toNat).take message.length = message.drop n.toNat :=
    List.take_of_length_le (by simp)
  simp only [bufferRest, hlt, ↓reduceIte, substr, hsz, hpos, hall, and_true]
  split_ifs <;> simp

theorem stream_directWrite {message : Bytes} {ret : ℤ} (h : c.outBuf.readableBytes = 0) :
    (c.directWrite message ret).stream = c.stream ++ message.take ret.toNat := by
  have hr : c.outBuf.readable = [] := (c.outBuf.readable_eq_nil_iff).mpr h
  unfold directWrite
  dsimp only
  split_ifs
  · rw [stream_queueInLoop]
    simp [stream, written, TcpConnection.write, WriteCall.accepted, hr]
  · simp [stream, hr]

end Stream

theorem take_append_drop_eq_iff {message : Bytes} {m n : ℕ} (hm : m ≤ message.length)
    (hn : n ≤ message.length) : message.take m ++ message.drop n = message ↔ m = n := by
  constructor
  · intro h
    have hl := congrArg List.length h
    simp only [List.length_append, List.length_take, List.length_drop] at hl
    omega
  · rintro rfl
    exact List.take_append_drop m message

/-- A direct send keeps the stream intact exactly when its write result is harmless. -/
theorem sendInLoop_empty_iff {c : TcpConnection} {message : Bytes} {ret : ℤ}
    (hlen : message.length < 2 ^ 63) (h : c.outBuf.readableBytes = 0)
    (hret : WriteReturns message.length ret) :
    (c.sendInLoop message ret).1.stream = c.stream ++ message ∧
        (c.sendInLoop message ret).2 = .returned ↔
      ret = message.length ∨ (0 ≤ ret ∧ ret < toInt32 message.length) := by
  have hs : c.sendInLoop message ret =
      (c.directWrite message ret).bufferRest message (toInt32 ret) := by
    simp [TcpConnection.sendInLoop, h]
  have hw : (c.directWrite message ret).stream = c.stream ++ message.take ret.toNat :=
    stream_directWrite c h
  have hb := toInt32_bounds ret
  have hm := (toInt32_bounds message.length).2
  rw [hs]
  by_cases hlt : toInt32 ret < toInt32 message.length
  · by_cases hneg : toInt32 ret < 0
    · -- the count turns negative in `int`: the call throws
      rw [bufferRest_neg _ hlen hlt hb.1 hneg]
      have hret' : ret ≠ message.length := by rintro rfl; omega
      have hbig : ¬ (0 ≤ ret ∧ ret < toInt32 message.length) := by
        rintro ⟨h0, h1⟩
        have := toInt32_of_fits (n := ret) (by omega) (by omega)
        omega
      simp [hret', hbig]
    · have h0 : 0 ≤ ret := by
        rcases hret with rfl | hr
        · exact absurd (by decide) hneg
        · exact hr.1
      have hle : toInt32 ret ≤ ret := toInt32_le h0
      have hsz : ret ≤ message.length := by
        rcases hret with rfl | hr
        · omega
        · exact hr.2
      obtain ⟨h1, h2⟩ := bufferRest_nonneg (c.directWrite message ret) hlt (by omega) (by omega)
      rw [h1, h2, hw, List.append_assoc, List.append_cancel_left_eq,
        take_append_drop_eq_iff (by omega) (by omega)]
      have hne : ret ≠ message.length := by rintro rfl; omega
      constructor
      · rintro ⟨he, -⟩
        exact .inr ⟨h0, by omega⟩
      · rintro (he | ⟨-, he⟩)
        · exact absurd he hne
        · have := toInt32_of_fits (n := ret) (by omega) (by omega)
          exact ⟨by omega, rfl⟩
  · rw [bufferRest_of_le _ (by omega), hw]
    have hcancel : c.stream ++ message.take ret.toNat = c.stream ++ message ↔
        message.length ≤ ret.toNat := by
      rw [List.append_cancel_left_eq, List.take_eq_self_iff]
    simp only [hcancel, and_true]
    rcases hret with rfl | ⟨h0, h1⟩
    · have hz : toInt32 (-1) = -1 := by decide
      have hzero : message.length ≠ 0 := by
        intro he
        rw [he, hz] at hlt
        exact hlt (by decide)
      omega
    · have hle : toInt32 ret ≤ ret := toInt32_le h0
      omega

/-- With output still buffered, a send is intact exactly when the `int` size is not negative. -/
theorem sendInLoop_buffered_iff {c : TcpConnection} {message : Bytes} {ret : ℤ}
    (h : c.outBuf.readableBytes ≠ 0) :
    (c.sendInLoop message ret).1.stream = c.stream ++ message ∧
        (c.sendInLoop message ret).2 = .returned ↔
      message.length = 0 ∨ 0 < toInt32 message.length := by
  have hs : c.sendInLoop message ret = c.bufferRest message 0 := by
    simp [TcpConnection.sendInLoop, h]
  rw [hs]
  by_cases hlt : 0 < toInt32 message.length
  · obtain ⟨h1, h2⟩ := bufferRest_nonneg c hlt le_rfl (by omega)
    simp [h1, h2, hlt]
  · rw [bufferRest_of_le c (by omega)]
    simp [hlt]

theorem sendInLoop_intact_iff {c : TcpConnection} {message : Bytes} {ret : ℤ}
    (hlen : message.length < 2 ^ 63)
    (hret : c.outBuf.readableBytes = 0 → WriteReturns message.length ret) :
    (c.sendInLoop message ret).1.stream = c.stream ++ message ∧
        (c.sendInLoop message ret).2 = .returned ↔ SendOk c message ret := by
  unfold SendOk
  split_ifs with h
  · exact sendInLoop_empty_iff hlen h (hret h)
  · exact sendInLoop_buffered_iff h

/-- A drain with a positive count drops that count, whatever the kernel has taken. -/
theorem stream_handleWrite_pos {c : TcpConnection} {ret : ℤ}
    (hw : c.channel.isWriting = true) (hpos : 0 < toInt32 ret) :
    (c.handleWrite ret).stream = c.written ++
      (c.outBuf.readable.take ret.toNat ++ c.outBuf.readable.drop (toInt32 ret).toNat) := by
  have hb := toInt32_bounds ret
  have hsz : toSizeT (toInt32 ret) = (toInt32 ret).toNat := by
    have := toSizeT_of_nonneg (n := toInt32 ret) (by omega) (by omega)
    omega
  have hpos' : toInt32 ret > 0 := hpos
  simp only [handleWrite, hw, hpos', hsz, ↓reduceIte]
  split_ifs <;>
    simp [stream, written, TcpConnection.write, WriteCall.accepted, queueInLoop, clearWriting]

theorem stream_handleWrite_nonpos {c : TcpConnection} {ret : ℤ}
    (hw : c.channel.isWriting = true) (hpos : toInt32 ret ≤ 0) :
    (c.handleWrite ret).stream = c.written ++
      (c.outBuf.readable.take ret.toNat ++ c.outBuf.readable) := by
  have hpos' : ¬ toInt32 ret > 0 := not_lt.mpr hpos
  simp [handleWrite, hw, hpos', stream]

/-- Draining moves bytes from the buffer to the kernel; a count that `int` changes is the one
way to move a different number of them. -/
theorem handleWrite_intact_iff {c : TcpConnection} {ret : ℤ}
    (hret : c.channel.isWriting = true → WriteReturns c.outBuf.readableBytes ret) :
    (c.handleWrite ret).stream = c.stream ↔ DrainOk c ret := by
  unfold DrainOk
  have hlen := c.outBuf.readable_length
  by_cases hw : c.channel.isWriting = true
  · simp only [hw, forall_const]
    rcases hret hw with rfl | ⟨h0, h1⟩
    · rw [stream_handleWrite_nonpos hw (by decide)]
      simp [stream]
    · have hle : toInt32 ret ≤ ret := toInt32_le h0
      have hfit : ret < 2 ^ 31 → toInt32 ret = ret := toInt32_of_fits (by omega)
      have hb := (toInt32_bounds ret).2
      rcases lt_or_ge 0 (toInt32 ret) with hpos | hpos
      · rw [stream_handleWrite_pos hw hpos, stream, List.append_cancel_left_eq,
          take_append_drop_eq_iff (by omega) (by omega)]
        omega
      · rw [stream_handleWrite_nonpos hw hpos, stream, List.append_cancel_left_eq,
          List.append_left_eq_self, List.take_eq_nil_iff, ← List.length_eq_zero_iff]
        omega
  · simp [handleWrite, hw]

theorem step_eq_some_iff {s t : State} {e : Event} :
    step s e = some t ↔ Possible s e ∧ t = apply s e := by
  unfold step
  split_ifs with h <;> simp [h, eq_comm]

/-- One step from an intact state keeps it intact exactly when it avoids the bad branches. -/
theorem step_integrity_iff {s t : State} {e : Event} (hs : Integrity s)
    (h : step s e = some t) : Integrity t ↔ StepOk s e := by
  obtain ⟨hp, rfl⟩ := step_eq_some_iff.mp h
  obtain ⟨hstream, hout⟩ := hs
  cases e with
  | sendInLoop message ret =>
    rw [StepOk, ← sendInLoop_intact_iff hp.1 hp.2]
    have ho : (Outcome.outOfRange ≠ (s.conn.sendInLoop message ret).2) ↔
        (s.conn.sendInLoop message ret).2 = .returned := by
      cases (s.conn.sendInLoop message ret).2 <;> simp
    simp [Integrity, apply, hout, hstream, ho]
  | epollout ret =>
    rw [StepOk, ← handleWrite_intact_iff hp]
    simp [Integrity, apply, hout, hstream]

theorem initial_integrity (sockfd : ℤ) : Integrity (initial sockfd) := by
  simp [Integrity, initial, TcpConnection.new, stream, written]

/-- The outgoing stream of a connection is intact after every step of a run exactly when no
step takes one of the bad branches. -/
theorem outgoing_stream_intact_iff (sockfd : ℤ) (es : List Event) :
    Always step Integrity (initial sockfd) es ↔ Guarded step StepOk (initial sockfd) es :=
  always_iff_guarded (fun _ _ _ hs h => step_integrity_iff hs h) (initial_integrity sockfd) es

/-- The first `::write` on a fresh connection answers `EAGAIN`, and the call throws. -/
theorem outgoing_stream_broken_by_failed_write :
    ¬ ∀ (sockfd : ℤ) (es : List Event), Always step Integrity (initial sockfd) es := by
  intro h
  have hp : Possible (initial 3) (.sendInLoop [120] (-1)) := by decide +kernel
  have ht := (h 3 [.sendInLoop [120] (-1)]).2 _ (step_eq_some_iff.mpr ⟨hp, rfl⟩)
  exact ht.2 (by decide +kernel)

end RpcMuduo.OutgoingStream
