import RpcMuduo.ConnectionLoop

/-!
# After the close

`handleClose` takes the descriptor out of the epoll, but neither `send` nor `sendInLoop` asks
whether the connection is closed.
-/
namespace RpcMuduo.ConnectionLoop
open CInt Run

/-- Since the close there was no `::write` and no `epoll_ctl`. -/
def Silent (s : ConnectionLoop) : Prop :=
  ∀ writes ctls, s.closed = some (writes, ctls) →
    s.conn.writes.length = writes ∧ s.conn.ctls.length = ctls

/-- After the close `sendInLoop` runs only where it neither writes nor appends: with output that
is still buffered, on a message whose size is not positive as an `int`. -/
def SendsNothing (s : ConnectionLoop) (e : Event) : Prop :=
  s.closed ≠ none → ∀ message ret, s.op e = some (.send message ret) →
    s.conn.outBuf.readableBytes ≠ 0 ∧ toInt32 message.length ≤ 0

/-- The index of the channel tells whether the connection was closed, and then nothing waits to
be written. -/
structure CloseInv (s : ConnectionLoop) : Prop where
  index : s.conn.channel.index = if s.closed = none then .kAdded else .kDeleted
  idle : s.closed ≠ none → s.conn.channel.isWriting = false

section Index

variable {c : TcpConnection}

lemma index_update {channel : Channel} (h : channel.index ≠ .kNew) :
    (Epoll.update channel).1 = channel := by
  unfold Epoll.update
  split
  · contradiction
  · rfl
  · rfl

lemma kept_index (index : Index) (h : index ≠ .kNew) :
    TcpConnection.Kept fun c => c.channel.index = index where
  write := fun _ _ _ _ hc => hc
  outBuf := fun _ _ hc => hc
  setWriting := by
    intro c hc
    simp only [TcpConnection.setWriting, Channel.enableWriting]
    rwa [index_update (by simpa [hc] using h)]
  clearWriting := by
    intro c hc
    simp only [TcpConnection.clearWriting, Channel.disableWriting]
    rwa [index_update (by simpa [hc] using h)]
  queueInLoop := fun _ _ hc => hc

lemma index_sendInLoop (h : c.channel.index ≠ .kNew) (message : Bytes) (ret : ℤ) :
    (c.sendInLoop message ret).1.channel.index = c.channel.index :=
  (kept_index _ h).sendInLoop rfl message ret

lemma index_handleWrite (h : c.channel.index ≠ .kNew) (ret : ℤ) :
    (c.handleWrite ret).channel.index = c.channel.index :=
  (kept_index _ h).handleWrite rfl ret

end Index

section Silent

variable {s t : ConnectionLoop}

/-- One send on a connection that waits for nothing: what it writes and registers. -/
lemma sendInLoop_silent_iff {c : TcpConnection} (hidle : c.channel.isWriting = false)
    (message : Bytes) (ret : ℤ) :
    ((c.sendInLoop message ret).1.writes.length = c.writes.length ∧
        (c.sendInLoop message ret).1.ctls.length = c.ctls.length) ↔
      c.outBuf.readableBytes ≠ 0 ∧ toInt32 message.length ≤ 0 := by
  unfold TcpConnection.sendInLoop
  by_cases hempty : c.outBuf.readableBytes = 0
  · have hwrites : ((c.directWrite message ret).bufferRest message (toInt32 ret)).1.writes.length =
        c.writes.length + 1 := by
      rw [TcpConnection.writes_bufferRest, TcpConnection.writes_directWrite]
      simp
    simp only [hempty, ↓reduceIte, ne_eq, not_true_eq_false, false_and, iff_false]
    omega
  · simp only [hempty, ↓reduceIte, ne_eq, not_false_eq_true, true_and]
    by_cases hsize : 0 < toInt32 message.length
    · rw [TcpConnection.bufferRest_zero c hsize]
      simp only [hidle, Bool.false_eq_true, ↓reduceIte, TcpConnection.setWriting,
        List.length_append, List.length_singleton]
      omega
    · rw [TcpConnection.bufferRest_of_le c (not_lt.mp hsize)]
      simpa using not_lt.mp hsize

lemma sendInLoop_of_silent {c : TcpConnection} {message : Bytes} {ret : ℤ}
    (hrest : c.outBuf.readableBytes ≠ 0) (hsize : toInt32 message.length ≤ 0) :
    (c.sendInLoop message ret).1 = c := by
  rw [TcpConnection.sendInLoop, if_neg hrest, TcpConnection.bufferRest_of_le c hsize]

/-- While the connection is open every operation leaves the two records in step. -/
lemma closeInv_open (h : CloseInv s) (hopen : s.closed = none) {op : Op}
    (hconn : t.conn = (s.perform op).conn) (hclosed : t.closed = (s.perform op).closed) :
    Silent t ∧ CloseInv t := by
  have hindex : s.conn.channel.index = .kAdded := by simpa [hopen] using h.index
  have hne : s.conn.channel.index ≠ .kNew := by simp [hindex]
  have hclose : s.conn.handleClose.channel.index = .kDeleted ∧
      s.conn.handleClose.channel.isWriting = false := ⟨rfl, rfl⟩
  have hkept : ((op.apply s.conn).channel.index = .kAdded) ∨
      ((op.apply s.conn).channel.index = .kDeleted ∧
        (op.apply s.conn).channel.isWriting = false) := by
    cases op with
    | send message ret => exact Or.inl ((index_sendInLoop hne message ret).trans hindex)
    | write ret => exact Or.inl ((index_handleWrite hne ret).trans hindex)
    | read readlength reset =>
      rcases s.conn.handleRead_cases readlength reset with hread | hread
      · exact Or.inl (by rw [Op.apply, hread, hindex])
      · exact Or.inr (by rw [Op.apply, hread]; exact hclose)
    | close => exact Or.inr hclose
  simp only [perform, hopen, true_and] at hconn hclosed
  rcases hkept with hadded | ⟨hdeleted, hidle⟩
  · rw [hadded, if_neg (by decide)] at hclosed
    refine ⟨by simp [Silent, hclosed], ?_, by simp [hclosed]⟩
    rw [hconn, hclosed]
    exact hadded
  · rw [if_pos hdeleted] at hclosed
    refine ⟨?_, ?_, ?_⟩
    · intro writes ctls heq
      rw [hclosed, Option.some.injEq, Prod.mk.injEq] at heq
      rw [hconn]
      exact heq
    · rw [hconn, hclosed]
      exact hdeleted
    · intro _
      rw [hconn]
      exact hidle

lemma closeInv_congr (h : CloseInv s) (hchannel : t.conn.channel = s.conn.channel)
    (hclosed : t.closed = s.closed) : CloseInv t where
  index := by
    rw [hchannel, hclosed]
    exact h.index
  idle := by
    rw [hchannel, hclosed]
    exact h.idle

/-- A closed connection stays silent when its logs do not grow. -/
lemma silent_iff_lengths (hsilent : Silent s) (hclosed : s.closed ≠ none)
    (hsame : t.closed = s.closed) : Silent t ↔
      t.conn.writes.length = s.conn.writes.length ∧ t.conn.ctls.length = s.conn.ctls.length := by
  obtain ⟨⟨writes, ctls⟩, heq⟩ := Option.ne_none_iff_exists'.mp hclosed
  obtain ⟨hwrites, hctls⟩ := hsilent writes ctls heq
  simp only [Silent, hsame, heq, Option.some.injEq, Prod.mk.injEq, hwrites, hctls]
  constructor
  · intro hlengths
    exact hlengths writes ctls ⟨rfl, rfl⟩
  · rintro hlengths _ _ ⟨rfl, rfl⟩
    exact hlengths

lemma sendsNothing_of_op {e : Event} (h : ∀ message ret, s.op e ≠ some (.send message ret)) :
    s.SendsNothing e :=
  fun _ message ret hsend => absurd hsend (h message ret)

lemma silent_send (h : CloseInv s) (hsilent : Silent s) (hclosed : s.closed ≠ none) {e : Event}
    {message : Bytes} {ret : ℤ} (hop : s.op e = some (.send message ret))
    (hconn : t.conn = (s.perform (.send message ret)).conn) (hsame : t.closed = s.closed) :
    (Silent t ↔ s.SendsNothing e) ∧ (Silent t → CloseInv t) := by
  have hsend := sendInLoop_silent_iff (h.idle hclosed) message ret
  have hiff : Silent t ↔
      s.conn.outBuf.readableBytes ≠ 0 ∧ toInt32 message.length ≤ 0 := by
    rw [silent_iff_lengths hsilent hclosed hsame, hconn]
    exact hsend
  refine ⟨hiff.trans ⟨?_, ?_⟩, ?_⟩
  · intro hquiet _ message' ret' hop'
    rw [hop, Option.some.injEq, Op.send.injEq] at hop'
    exact hop'.1 ▸ hquiet
  · intro hnothing
    exact hnothing hclosed message ret hop
  · intro hquiet
    obtain ⟨hrest, hsize⟩ := hiff.mp hquiet
    refine closeInv_congr h ?_ hsame
    rw [hconn, perform, Op.apply, sendInLoop_of_silent hrest hsize]

/-- One step of a closed and silent connection. -/
lemma silent_closed (h : CloseInv s) (hsilent : Silent s) (hclosed : s.closed ≠ none) {e : Event}
    (hstep : step s e = some t) :
    (Silent t ↔ s.SendsNothing e) ∧ (Silent t → CloseInv t) := by
  have hindex : s.conn.channel.index = .kDeleted := by simpa [hclosed] using h.index
  rcases step_conn hstep with ⟨hop, hconn, hsame⟩ | ⟨op, hop, henabled, hconn, hperform⟩
  · have hnothing : s.SendsNothing e := sendsNothing_of_op (by simp [hop])
    have hlengths := (silent_iff_lengths hsilent hclosed hsame).mpr (by simp [hconn])
    exact ⟨iff_of_true hlengths hnothing, fun _ => closeInv_congr h (by rw [hconn]) hsame⟩
  · have hsame : t.closed = s.closed := by
      rw [hperform, perform]
      simp [hclosed]
    cases op with
    | send message ret => exact silent_send h hsilent hclosed hop hconn hsame
    | write ret =>
      have hwrite := s.conn.handleWrite_of_not_isWriting (h.idle hclosed) ret
      have hnothing : s.SendsNothing e := sendsNothing_of_op (by simp [hop])
      have hlengths := (silent_iff_lengths hsilent hclosed hsame).mpr
        (by simp [hconn, perform, Op.apply, hwrite])
      refine ⟨iff_of_true hlengths hnothing, fun _ => closeInv_congr h ?_ hsame⟩
      rw [hconn, perform, Op.apply, hwrite]
    | read readlength reset =>
      rw [Op.Enabled, hindex] at henabled
      cases henabled
    | close =>
      rw [Op.Enabled, hindex] at henabled
      cases henabled

lemma silent_step (hsilent : Silent s) (h : CloseInv s) {e : Event} (hstep : step s e = some t) :
    (Silent t ↔ s.SendsNothing e) ∧ (Silent t → CloseInv t) := by
  cases hclosed : s.closed with
  | some lengths => exact silent_closed h hsilent (by simp [hclosed]) hstep
  | none =>
    have hnothing : s.SendsNothing e := fun hne => absurd hclosed hne
    rcases step_conn hstep with ⟨-, hconn, hclosed'⟩ | ⟨op, -, -, hconn, hclosed'⟩
    · refine ⟨iff_of_true ?_ hnothing, fun _ => ?_⟩
      · simp [Silent, hclosed', hclosed]
      · exact ⟨by rw [hconn, hclosed']; exact h.index, by rw [hconn, hclosed']; exact h.idle⟩
    · obtain ⟨hsilent', hinv⟩ := closeInv_open h hclosed hconn hclosed'
      exact ⟨iff_of_true hsilent' hnothing, fun _ => hinv⟩

lemma closeInv_initial (sockfd : ℤ) : CloseInv (initial sockfd) := ⟨rfl, by simp [initial]⟩

end Silent

/-- A reply that is sent after the peer has gone. -/
def lateReply : List Event := [.handleClose, .send [120] 1]

lemma lateReply_isSome : (run step (initial 5) lateReply).isSome = true := by decide +kernel

/-- A connection is silent after its close exactly in the runs where no `sendInLoop` after the
close has anything to write or to append. -/
theorem closed_connection_silent_iff (sockfd : ℤ) (es : List Event) :
    Always step Silent (initial sockfd) es ↔ Guarded step SendsNothing (initial sockfd) es :=
  always_iff_guarded_of_invariant (fun _ _ _ hs h hstep => silent_step hs h hstep)
    (by simp [Silent, initial]) (closeInv_initial sockfd) es

theorem closed_connection_writes : ¬ Always step Silent (initial 5) lateReply := by
  intro h
  have hsilent := always_run h (Option.some_get lateReply_isSome).symm
  have hclosed : ((run step (initial 5) lateReply).get lateReply_isSome).closed = some (0, 2) := by
    decide +kernel
  have hwrites :
      ((run step (initial 5) lateReply).get lateReply_isSome).conn.writes.length = 1 := by
    decide +kernel
  have hsame := (hsilent 0 2 hclosed).1
  omega

end RpcMuduo.ConnectionLoop
