import RpcMuduo.OutgoingStream
import RpcMuduo.WriteInterest

/-!
# The reports of a completed write

After a send, `onWriteComplate` is to be queued once, when the last byte has gone out: by the send
itself or by the drain that empties the buffer.
-/
namespace RpcMuduo.OutgoingStream
open CInt TcpConnection Run

/-- What has been queued since the functors were `before`: one report where nothing is left to
write, none where something is. -/
def Reported (before : List Functor) (c : TcpConnection) : Prop :=
  c.functors =
    before ++ if c.outBuf.readableBytes = 0 then [.onWriteComplateCB] else []

/-- The send finds output in the buffer, or its direct write takes in `int` what the message has, or
a part of it. -/
def Reports (c : TcpConnection) (message : Bytes) (ret : ℤ) : Prop :=
  c.outBuf.readableBytes ≠ 0 ∨ toInt32 ret = toInt32 message.length ∨
    (0 ≤ toInt32 ret ∧ toInt32 ret < toInt32 message.length)

instance (before : List Functor) (c : TcpConnection) : Decidable (Reported before c) :=
  inferInstanceAs (Decidable (_ = _))

instance (c : TcpConnection) (message : Bytes) (ret : ℤ) : Decidable (Reports c message ret) :=
  inferInstanceAs (Decidable (_ ∨ _))

section Send

variable {c : TcpConnection} {message : Bytes}

/-- What the first write left over is in the buffer, unless the call throws. -/
lemma readableBytes_bufferRest (hlen : message.length < 2 ^ 63) {n : ℤ} (hlo : -2 ^ 31 ≤ n)
    (hempty : c.outBuf.readableBytes = 0) :
    (c.bufferRest message n).1.outBuf.readableBytes = 0 ↔
      ¬ (0 ≤ n ∧ n < toInt32 message.length) := by
  by_cases hlt : n < toInt32 message.length
  · by_cases hneg : n < 0
    · rw [bufferRest_neg c hlen hlt hlo hneg]
      exact iff_of_true hempty (by omega)
    · have hsize := toInt32_le (n := message.length) (by omega)
      have hstream := (bufferRest_nonneg c hlt (by omega) (by omega)).1
      have hwrites := writes_bufferRest c message n
      have hrest : (c.bufferRest message n).1.outBuf.readable = message.drop n.toNat := by
        have hbuffer : c.outBuf.readable = [] := c.outBuf.readable_eq_nil_iff.mpr hempty
        simpa only [stream, written, hwrites, hbuffer, List.append_nil, List.append_cancel_left_eq]
          using hstream
      rw [← Buffer.readable_eq_nil_iff, hrest, List.drop_eq_nil_iff]
      omega
  · rw [bufferRest_of_le c (by omega)]
    exact iff_of_true hempty (by omega)

lemma readableBytes_bufferRest_ne (n : ℤ) (hne : c.outBuf.readableBytes ≠ 0) :
    (c.bufferRest message n).1.outBuf.readableBytes ≠ 0 := by
  unfold TcpConnection.bufferRest
  split
  · split
    · exact hne
    · have happend : ∀ rest, (c.outBuf.append rest).readableBytes ≠ 0 := by
        intro rest
        rw [readableBytes_append]
        omega
      simp only
      split
      · exact happend _
      · exact happend _
  · exact hne

lemma readableBytes_directWrite (ret : ℤ) (hempty : c.outBuf.readableBytes = 0) :
    (c.directWrite message ret).outBuf.readableBytes = 0 := by
  unfold TcpConnection.directWrite
  simp only
  split
  · exact readableBytes_retrieveAll c.outBuf
  · exact hempty

/-- A send is reported at once, or will be, exactly where its count makes sense. -/
lemma sendInLoop_reported_iff (hlen : message.length < 2 ^ 63) (ret : ℤ) :
    Reported c.functors (c.sendInLoop message ret).1 ↔ Reports c message ret := by
  unfold Reported Reports
  rw [ConnectionLoop.functors_sendInLoop]
  by_cases hempty : c.outBuf.readableBytes = 0
  · have hbuffer : (c.sendInLoop message ret).1.outBuf.readableBytes = 0 ↔
        ¬ (0 ≤ toInt32 ret ∧ toInt32 ret < toInt32 message.length) := by
      rw [TcpConnection.sendInLoop, if_pos hempty]
      exact readableBytes_bufferRest hlen (toInt32_bounds ret).1
        (readableBytes_directWrite ret hempty)
    by_cases hwhole : toInt32 ret = toInt32 message.length
    · have hdone : (c.sendInLoop message ret).1.outBuf.readableBytes = 0 := by
        rw [hbuffer]
        omega
      simp [hempty, hwhole, hdone]
    · by_cases hpart : 0 ≤ toInt32 ret ∧ toInt32 ret < toInt32 message.length
      · simp [hempty, hwhole, hbuffer, hpart]
      · simp [hempty, hwhole, hbuffer, hpart]
  · have hbuffer : (c.sendInLoop message ret).1.outBuf.readableBytes ≠ 0 := by
      rw [TcpConnection.sendInLoop, if_neg hempty]
      exact readableBytes_bufferRest_ne 0 hempty
    simp [hempty, hbuffer]

end Send

section Drain

variable {c : TcpConnection}

/-- A drain reports the end of the output once, and does nothing more afterwards. -/
lemma handleWrite_reported_iff (h : c.Tracks) (before : List Functor) (ret : ℤ) :
    Reported before (c.handleWrite ret) ↔ Reported before c := by
  by_cases hempty : c.outBuf.readableBytes = 0
  · have hwriting : c.channel.isWriting = false := by
      rw [isWriting_of_tracks h]
      simp [hempty]
    rw [handleWrite_of_not_isWriting c hwriting]
  · have hwriting : c.channel.isWriting = true := by
      rw [isWriting_of_tracks h]
      simp [hempty]
    have hcases : (c.handleWrite ret).outBuf.readableBytes = 0 ∧
          (c.handleWrite ret).functors = c.functors ++ [.onWriteComplateCB] ∨
        (c.handleWrite ret).outBuf.readableBytes ≠ 0 ∧
          (c.handleWrite ret).functors = c.functors := by
      unfold TcpConnection.handleWrite
      simp only [hwriting, if_true]
      split
      · split
        · rename_i hdone
          exact Or.inl ⟨hdone, rfl⟩
        · rename_i hrest
          exact Or.inr ⟨hrest, rfl⟩
      · exact Or.inr ⟨hempty, rfl⟩
    unfold Reported
    rcases hcases with ⟨hdone, hfunctors⟩ | ⟨hrest, hfunctors⟩
    · rw [hfunctors, if_pos hdone, if_neg hempty, List.append_left_inj, List.append_nil]
    · rw [hfunctors, if_neg hrest, if_neg hempty]

end Drain

section Runs

variable {s t : State}

lemma tracks_step {e : Event} (h : s.conn.Tracks) (hstep : step s e = some t) :
    t.conn.Tracks := by
  simp only [step, Option.ite_none_right_eq_some, Option.some.injEq] at hstep
  obtain ⟨hpossible, rfl⟩ := hstep
  cases e with
  | sendInLoop message ret => exact tracks_sendInLoop h hpossible.1 ret
  | epollout ret => exact tracks_handleWrite h ret

lemma drains_reported_iff {drains : List Event} (h : s.conn.Tracks) (before : List Functor)
    (hdrains : ∀ e ∈ drains, ∃ ret, e = .epollout ret) (hrun : run step s drains = some t) :
    Reported before t.conn ↔ Reported before s.conn := by
  induction drains generalizing s with
  | nil =>
    simp only [run_nil, Option.some.injEq] at hrun
    rw [hrun]
  | cons e drains ih =>
    obtain ⟨u, hu, hrest⟩ := run_cons_iff.mp hrun
    rw [ih (tracks_step h hu) (fun e' he' => hdrains e' (List.mem_cons_of_mem _ he')) hrest]
    obtain ⟨ret, rfl⟩ := hdrains e List.mem_cons_self
    simp only [step, Option.ite_none_right_eq_some, Option.some.injEq] at hu
    obtain ⟨-, rfl⟩ := hu
    exact handleWrite_reported_iff h before ret

end Runs

/-- In every run, between a send and the next one, one `onWriteComplate` is queued from the moment
on at which nothing is left to write, and none before, exactly where the send meets `Reports`. A
direct write that fails is one that does not: nothing is left, and nobody is told. -/
theorem completion_reported_once_iff {sockfd : ℤ} {es drains : List Event} {s t : State}
    {message : Bytes} {ret : ℤ} (hs : run step (initial sockfd) es = some s)
    (hdrains : ∀ e ∈ drains, ∃ ret, e = .epollout ret)
    (hrun : run step s (.sendInLoop message ret :: drains) = some t) :
    Reported s.conn.functors t.conn ↔ Reports s.conn message ret := by
  have htracks : s.conn.Tracks :=
    run_invariant (P := fun s => s.conn.Tracks) (fun _ _ _ h hstep => tracks_step h hstep)
      (tracks_new sockfd) hs
  obtain ⟨u, hu, hrest⟩ := run_cons_iff.mp hrun
  have hnext := tracks_step htracks hu
  simp only [step, Option.ite_none_right_eq_some, Option.some.injEq] at hu
  obtain ⟨hpossible, rfl⟩ := hu
  rw [drains_reported_iff hnext s.conn.functors hdrains hrest]
  exact sendInLoop_reported_iff hpossible.1 ret

/-- A message of which the kernel takes one byte, and then one at a time. -/
def partSend : List Event := [.sendInLoop [1, 2, 3] 1, .epollout 1, .epollout 1]

lemma firstSend_isSome : (run step (initial 5) [.sendInLoop [7] 1]).isSome = true := by
  decide +kernel

lemma partSend_isSome :
    (run step ((run step (initial 5) [.sendInLoop [7] 1]).get firstSend_isSome)
      partSend).isSome = true := by
  decide +kernel

theorem completion_reported_once_iff_drained :
    Reported ((run step (initial 5) [.sendInLoop [7] 1]).get firstSend_isSome).conn.functors
      ((run step ((run step (initial 5) [.sendInLoop [7] 1]).get firstSend_isSome)
        partSend).get partSend_isSome).conn := by
  refine (completion_reported_once_iff (Option.some_get firstSend_isSome).symm ?_
    (Option.some_get partSend_isSome).symm).mpr ?_
  · simp
  · decide +kernel

end RpcMuduo.OutgoingStream
