import RpcMuduo.OutgoingStream
import RpcMuduo.WriteInterest

/-!
# Concurrent sends

Messages that the loop thread sends bypass the queue which the messages of the other threads
pass through. Every `::write` returns between zero and the size that was asked for.
-/
namespace RpcMuduo.ConnectionLoop
open CInt Run

/-- What `::write` may return, where the operation calls it. -/
def Op.Within (c : TcpConnection) : Op → Prop
  | .send message ret => c.outBuf.readableBytes = 0 → 0 ≤ ret ∧ ret ≤ message.length
  | .write ret => c.channel.isWriting = true → 0 ≤ ret ∧ ret ≤ c.outBuf.readableBytes
  | .read _ _ | .close => True

instance (c : TcpConnection) : (op : Op) → Decidable (op.Within c)
  | .send _ _ => inferInstanceAs (Decidable (_ → _))
  | .write _ => inferInstanceAs (Decidable (_ → _))
  | .read _ _ | .close => inferInstanceAs (Decidable True)

def stepWithin (s : ConnectionLoop) (e : Event) : Option ConnectionLoop :=
  if ∀ op ∈ s.op e, op.Within s.conn then step s e else none

/-- The message that a functor carries, with the thread that sent it. -/
def messageOf : ℕ × Functor → Option (ℕ × Bytes)
  | (thread, .onMessageCB message) => some (thread, message)
  | (_, .onWriteComplateCB) => none

/-- The messages in the functors that have not been executed. -/
def queued (s : ConnectionLoop) : List (ℕ × Bytes) :=
  (s.tempRuns ++ s.pendingFunctors).filterMap messageOf

def ofThread (thread : ℕ) (messages : List (ℕ × Bytes)) : List (ℕ × Bytes) :=
  messages.filter fun p => p.1 = thread

/-- The bytes written and then those buffered are a sequence of whole messages, in the order of
each thread that sent them, and what is not in the sequence still waits in a functor. -/
def Whole (s : ConnectionLoop) : Prop :=
  ∃ messages, s.conn.stream = (messages.map Prod.snd).flatten ∧
    (∀ thread, ofThread thread messages <+: ofThread thread s.sent) ∧
    s.sent.Perm (messages ++ s.queued)

/-- An operation meets no count and no size that `int` changes. -/
def Op.Fits (c : TcpConnection) : Op → Prop
  | .send message ret => OutgoingStream.SendOk c message ret
  | .write ret => OutgoingStream.DrainOk c ret
  | .read _ _ | .close => True

def StepFits (s : ConnectionLoop) (e : Event) : Prop := ∀ op ∈ s.op e, op.Fits s.conn

section Stream

variable {c : TcpConnection}

/-- Whatever the counts become in `int`, a send adds a beginning and an end of the message. -/
lemma stream_sendInLoop {message : Bytes} {ret : ℤ} (hlen : message.length < 2 ^ 63)
    (hret : Op.Within c (.send message ret)) :
    ∃ i j, i ≤ message.length ∧ j ≤ message.length ∧
      (c.sendInLoop message ret).1.stream = c.stream ++ (message.take i ++ message.drop j) ∧
      (i = j → (c.sendInLoop message ret).2 = .returned) := by
  have hsize := (toInt32_bounds message.length).2
  unfold TcpConnection.sendInLoop
  by_cases hempty : c.outBuf.readableBytes = 0
  · obtain ⟨hlo, hle⟩ := hret hempty
    have hwrite : (c.directWrite message ret).stream = c.stream ++ message.take ret.toNat :=
      OutgoingStream.stream_directWrite c hempty
    have hbounds := toInt32_bounds ret
    have hcount := toInt32_le hlo
    simp only [hempty, ↓reduceIte]
    by_cases hlt : toInt32 ret < toInt32 message.length
    · by_cases hneg : toInt32 ret < 0
      · rw [OutgoingStream.bufferRest_neg _ hlen hlt hbounds.1 hneg, hwrite]
        refine ⟨ret.toNat, message.length, by omega, le_rfl, by simp, ?_⟩
        intro heq
        have : ret = message.length := by omega
        rw [this] at hlt
        exact absurd hlt (lt_irrefl _)
      · obtain ⟨hstream, hreturned⟩ := OutgoingStream.bufferRest_nonneg
          (c.directWrite message ret) hlt (by omega) (by omega)
        rw [hstream, hwrite, List.append_assoc]
        exact ⟨ret.toNat, (toInt32 ret).toNat, by omega, by omega, rfl, fun _ => hreturned⟩
    · rw [TcpConnection.bufferRest_of_le _ (by omega), hwrite]
      exact ⟨ret.toNat, message.length, by omega, le_rfl, by simp, fun _ => rfl⟩
  · simp only [hempty, ↓reduceIte]
    by_cases hlt : 0 < toInt32 message.length
    · obtain ⟨hstream, hreturned⟩ := OutgoingStream.bufferRest_nonneg c hlt le_rfl (by omega)
      rw [hstream]
      exact ⟨0, 0, by omega, by omega, by simp, fun _ => hreturned⟩
    · rw [TcpConnection.bufferRest_of_le _ (by omega)]
      exact ⟨0, message.length, by omega, le_rfl, by simp, fun _ => rfl⟩

/-- A send that adds as many bytes as the message has adds the message. -/
lemma sendInLoop_length_iff {message : Bytes} {ret : ℤ} (hlen : message.length < 2 ^ 63)
    (hret : Op.Within c (.send message ret)) :
    (c.sendInLoop message ret).1.stream.length = c.stream.length + message.length ↔
      OutgoingStream.SendOk c message ret := by
  have hintact := OutgoingStream.sendInLoop_intact_iff hlen
    (fun hempty => Or.inr (hret hempty) : _ → OutgoingStream.WriteReturns _ _)
  obtain ⟨i, j, hi, hj, hstream, hreturned⟩ := stream_sendInLoop hlen hret
  rw [← hintact, hstream, List.append_cancel_left_eq,
    OutgoingStream.take_append_drop_eq_iff hi hj]
  simp only [List.length_append, List.length_take, List.length_drop]
  constructor
  · intro hlength
    have heq : i = j := by omega
    exact ⟨heq, hreturned heq⟩
  · rintro ⟨heq, -⟩
    omega

/-- A drain that leaves the number of bytes as it was leaves the bytes as they were. -/
lemma handleWrite_length_iff {ret : ℤ} (hret : Op.Within c (.write ret)) :
    (c.handleWrite ret).stream.length = c.stream.length ↔ OutgoingStream.DrainOk c ret := by
  have hintact := OutgoingStream.handleWrite_intact_iff
    (fun hwriting => Or.inr (hret hwriting) : _ → OutgoingStream.WriteReturns _ _)
  have hreadable := c.outBuf.readable_length
  rw [← hintact]
  refine ⟨?_, fun heq => by rw [heq]⟩
  intro hlength
  by_cases hwriting : c.channel.isWriting = true
  · obtain ⟨hlo, hle⟩ := hret hwriting
    have hcount := toInt32_le hlo
    rcases lt_or_ge 0 (toInt32 ret) with hpos | hpos
    · rw [OutgoingStream.stream_handleWrite_pos hwriting hpos] at hlength ⊢
      simp only [TcpConnection.stream, List.length_append, List.length_take,
        List.length_drop] at hlength
      rw [TcpConnection.stream, (OutgoingStream.take_append_drop_eq_iff (by omega)
        (by omega)).mpr (by omega)]
    · rw [OutgoingStream.stream_handleWrite_nonpos hwriting hpos] at hlength ⊢
      simp only [TcpConnection.stream, List.length_append, List.length_take] at hlength
      have hzero : ret.toNat = 0 := by omega
      rw [TcpConnection.stream, hzero, List.take_zero, List.nil_append]
  · rw [c.handleWrite_of_not_isWriting (by simpa using hwriting)]

end Stream

/-- What has been sent was handed to the connection or waits, thread by thread in order; the loop
thread waits for nothing. -/
structure Accounts (s : ConnectionLoop) : Prop where
  interest : InterestInv s
  direct : ∀ p ∈ s.queued, p.1 ≠ 0
  order : ∀ thread, ofThread thread s.sent =
    ofThread thread s.handed ++ ofThread thread s.queued

section Queue

variable {s t : ConnectionLoop}

lemma ofThread_append (thread : ℕ) (as bs : List (ℕ × Bytes)) :
    ofThread thread (as ++ bs) = ofThread thread as ++ ofThread thread bs := List.filter_append ..

/-- What agrees thread by thread agrees as a whole. -/
lemma perm_of_ofThread {as bs : List (ℕ × Bytes)}
    (h : ∀ thread, ofThread thread as = ofThread thread bs) : as.Perm bs := by
  rw [List.perm_iff_count]
  intro p
  have hcount : ∀ l : List (ℕ × Bytes), (ofThread p.1 l).count p = l.count p := by
    intro l
    exact List.count_filter (by simp)
  rw [← hcount as, ← hcount bs, h p.1]

lemma queued_perform (h : s.conn.functors = []) (op : Op) : (s.perform op).queued = s.queued := by
  unfold queued perform
  rcases functors_apply s.conn op with hfunctors | hfunctors
  · simp [hfunctors, h]
  · simp [hfunctors, h, messageOf]

lemma ofThread_eq_nil {thread : ℕ} {messages : List (ℕ × Bytes)}
    (h : ∀ p ∈ messages, p.1 ≠ thread) : ofThread thread messages = [] := by
  rw [ofThread, List.filter_eq_nil_iff]
  intro p hp
  simpa using h p hp

/-- A message of the loop thread goes past the queue. -/
lemma order_direct (h : Accounts s) (message : Bytes) (thread : ℕ) :
    ofThread thread (s.sent ++ [(0, message)]) =
      ofThread thread (s.handed ++ [(0, message)]) ++ ofThread thread s.queued := by
  rw [ofThread_append, ofThread_append, h.order thread]
  by_cases hthread : thread = 0
  · subst hthread
    rw [ofThread_eq_nil h.direct]
    simp
  · have hnone : ofThread thread [(0, message)] = [] :=
      ofThread_eq_nil (by simpa using Ne.symm hthread)
    rw [hnone]
    simp

lemma accounts_congr (h : Accounts s) (hinterest : InterestInv t) (hsent : t.sent = s.sent)
    (hhanded : t.handed = s.handed) (hqueued : t.queued = s.queued) : Accounts t where
  interest := hinterest
  direct := by
    rw [hqueued]
    exact h.direct
  order := by
    rw [hsent, hhanded, hqueued]
    exact h.order

/-- A message of another thread goes to the end of the queue. -/
lemma accounts_sendFrom (h : Accounts s) (hinterest : InterestInv t) {thread : ℕ}
    {message : Bytes} (hthread : thread ≠ 0) (hsent : t.sent = s.sent ++ [(thread, message)])
    (hhanded : t.handed = s.handed) (hqueued : t.queued = s.queued ++ [(thread, message)]) :
    Accounts t where
  interest := hinterest
  direct := by
    intro p hp
    rw [hqueued] at hp
    rcases List.mem_append.mp hp with hold | hnew
    · exact h.direct p hold
    · rw [List.mem_singleton.mp hnew]
      exact hthread
  order := by
    intro thread'
    rw [hsent, hhanded, hqueued, ofThread_append, ofThread_append, h.order thread',
      List.append_assoc]

/-- A message goes from the front of the queue to the connection. -/
lemma accounts_handed (h : Accounts s) (hinterest : InterestInv t) {p : ℕ × Bytes}
    (hsent : t.sent = s.sent) (hhanded : t.handed = s.handed ++ [p])
    (hqueued : s.queued = p :: t.queued) : Accounts t where
  interest := hinterest
  direct := by
    intro q hq
    exact h.direct q (hqueued ▸ List.mem_cons_of_mem _ hq)
  order := by
    intro thread
    have horder := h.order thread
    rw [hqueued, ← List.singleton_append, ofThread_append, ← List.append_assoc,
      ← ofThread_append] at horder
    rw [hsent, hhanded]
    exact horder

lemma accounts_step (h : Accounts s) {e : Event} (hstep : step s e = some t) : Accounts t := by
  have hinterest := interestInv_step h.interest hstep
  have hfunctors := h.interest.functors
  cases e with
  | send message ret =>
    obtain ⟨-, rfl⟩ := step_send hstep
    have hqueued : ((s.noteSent 0 message).sendInLoop 0 message ret).queued = s.queued :=
      queued_perform hfunctors _
    refine ⟨hinterest, by rw [hqueued]; exact h.direct, ?_⟩
    rw [hqueued]
    exact order_direct h message
  | sendFrom thread message =>
    obtain ⟨-, hthread, rfl⟩ := step_sendFrom hstep
    refine accounts_sendFrom h hinterest hthread rfl rfl ?_
    simp [queued, noteSent, messageOf]
  | swapFunctors =>
    obtain ⟨hruns, rfl⟩ := step_swapFunctors hstep
    refine accounts_congr h hinterest rfl rfl ?_
    simp [queued, hruns]
  | runFunctor ret =>
    obtain ⟨thread, message, rest, hruns, rfl⟩ | ⟨thread, rest, hruns, rfl⟩ :=
      step_runFunctor hstep
    · refine accounts_handed (p := (thread, message)) h hinterest rfl rfl ?_
      have hrest : ConnectionLoop.queued ({ s with tempRuns := rest }.sendInLoop thread message
          ret) = ConnectionLoop.queued { s with tempRuns := rest } :=
        queued_perform (s := { s with tempRuns := rest }) hfunctors _
      rw [hrest]
      simp [queued, hruns, messageOf]
    · refine accounts_congr h hinterest rfl rfl ?_
      simp [queued, hruns, List.filterMap_cons, messageOf]
  | handleRead readlength reset =>
    obtain ⟨-, rfl⟩ := step_handleRead hstep
    exact accounts_congr h hinterest rfl rfl (queued_perform hfunctors _)
  | handleWrite ret =>
    obtain rfl := step_handleWrite hstep
    exact accounts_congr h hinterest rfl rfl (queued_perform hfunctors _)
  | handleClose =>
    obtain ⟨-, rfl⟩ := step_handleClose hstep
    exact accounts_congr h hinterest rfl rfl (queued_perform hfunctors _)

end Queue

section Whole

variable {s t : ConnectionLoop}

/-- What the step does to the stream and to the messages handed over. -/
lemma step_handed (h : Accounts s) {e : Event} (hstep : step s e = some t) :
    (s.op e = none ∧ t.conn.stream = s.conn.stream ∧ t.handed = s.handed) ∨
      ∃ op, s.op e = some op ∧ t.conn.stream = (op.apply s.conn).stream ∧
        match op with
        | .send message _ => message.length < 2 ^ 63 ∧
          ∃ thread, t.handed = s.handed ++ [(thread, message)]
        | _ => t.handed = s.handed := by
  cases e with
  | send message ret =>
    obtain ⟨hlen, rfl⟩ := step_send hstep
    exact Or.inr ⟨.send message ret, rfl, rfl, hlen, 0, rfl⟩
  | sendFrom thread message =>
    obtain ⟨-, -, rfl⟩ := step_sendFrom hstep
    exact Or.inl ⟨rfl, rfl, rfl⟩
  | swapFunctors =>
    obtain ⟨-, rfl⟩ := step_swapFunctors hstep
    exact Or.inl ⟨rfl, rfl, rfl⟩
  | runFunctor ret =>
    obtain ⟨thread, message, rest, hruns, rfl⟩ | ⟨thread, rest, hruns, rfl⟩ :=
      step_runFunctor hstep
    · have hlen : message.length < 2 ^ 63 := by
        refine h.interest.strings (thread, .onMessageCB message) ?_ message rfl
        simp [hruns]
      exact Or.inr ⟨.send message ret, by simp [op, hruns], rfl, hlen, thread, rfl⟩
    · exact Or.inl ⟨by simp [op, hruns], rfl, rfl⟩
  | handleRead readlength reset =>
    obtain ⟨-, rfl⟩ := step_handleRead hstep
    exact Or.inr ⟨.read readlength reset, rfl, rfl, rfl⟩
  | handleWrite ret =>
    obtain rfl := step_handleWrite hstep
    exact Or.inr ⟨.write ret, rfl, rfl, rfl⟩
  | handleClose =>
    obtain ⟨-, rfl⟩ := step_handleClose hstep
    exact Or.inr ⟨.close, rfl, rfl, rfl⟩

lemma sent_perm (h : Accounts s) : s.sent.Perm (s.handed ++ s.queued) := by
  apply perm_of_ofThread
  intro thread
  rw [h.order, ofThread_append]

/-- The messages of a whole stream are those handed over, up to their order. -/
lemma length_of_whole (h : Accounts s) (hwhole : Whole s) :
    s.conn.stream.length = (s.handed.map Prod.snd).flatten.length := by
  obtain ⟨messages, hstream, -, hperm⟩ := hwhole
  have hmessages : messages.Perm s.handed :=
    (List.perm_append_right_iff _).mp (hperm.symm.trans (sent_perm h))
  rw [hstream]
  exact ((hmessages.map Prod.snd).flatten).length_eq

lemma whole_of_stream (h : Accounts s)
    (hstream : s.conn.stream = (s.handed.map Prod.snd).flatten) : Whole s := by
  refine ⟨s.handed, hstream, ?_, sent_perm h⟩
  intro thread
  rw [h.order]
  exact List.prefix_append _ _

/-- What an operation that fits does to the stream, and that only the length need be looked at. -/
lemma fits_step (h : Accounts s) (hstream : s.conn.stream = (s.handed.map Prod.snd).flatten)
    {e : Event} (hwithin : ∀ op ∈ s.op e, op.Within s.conn) (hstep : step s e = some t) :
    (t.conn.stream.length = (t.handed.map Prod.snd).flatten.length → StepFits s e) ∧
      (StepFits s e → t.conn.stream = (t.handed.map Prod.snd).flatten) := by
  rcases step_handed h hstep with ⟨hop, hstream', hhanded⟩ | ⟨op, hop, hstream', hhanded⟩
  · rw [hstream', hhanded, hstream]
    refine ⟨fun _ => ?_, fun _ => rfl⟩
    intro op hmem
    rw [hop] at hmem
    cases hmem
  · have hfits : StepFits s e ↔ op.Fits s.conn := by simp [StepFits, hop]
    have hwithin := hwithin op hop
    rw [hfits, hstream']
    cases op with
    | send message ret =>
      obtain ⟨hlen, thread, hhanded⟩ := hhanded
      have hsend := sendInLoop_length_iff hlen hwithin
      rw [hhanded]
      simp only [List.map_append, List.map_cons, List.map_nil, List.flatten_append,
        List.flatten_cons, List.flatten_nil, List.append_nil]
      rw [← hstream, List.length_append]
      refine ⟨hsend.mp, ?_⟩
      intro hok
      exact ((OutgoingStream.sendInLoop_intact_iff hlen fun hempty => Or.inr (hwithin hempty)).mpr
        hok).1
    | write ret =>
      simp only at hhanded
      have hwrite := handleWrite_length_iff hwithin
      rw [hhanded, ← hstream]
      refine ⟨hwrite.mp, ?_⟩
      intro hok
      exact (OutgoingStream.handleWrite_intact_iff fun hwriting => Or.inr (hwithin hwriting)).mpr
        hok
    | read readlength reset =>
      simp only at hhanded
      refine ⟨fun _ => trivial, fun _ => ?_⟩
      rw [hhanded, ← hstream, Op.apply]
      rcases s.conn.handleRead_cases readlength reset with hread | hread
      · rw [hread]
      · rw [hread]
        rfl
    | close =>
      simp only at hhanded
      refine ⟨fun _ => trivial, fun _ => ?_⟩
      rw [hhanded, ← hstream]
      rfl

lemma stepWithin_iff {e : Event} : stepWithin s e = some t ↔
    (∀ op ∈ s.op e, op.Within s.conn) ∧ step s e = some t := by
  unfold stepWithin
  split
  · rename_i hwithin
    exact (and_iff_right hwithin).symm
  · rename_i hnot
    exact iff_of_false (by simp) fun h => hnot h.1

lemma accounts_initial (sockfd : ℤ) : Accounts (initial sockfd) :=
  ⟨interestInv_initial sockfd, by simp [queued, initial],
    by simp [queued, initial, ofThread]⟩

lemma stream_initial (sockfd : ℤ) : (initial sockfd).conn.stream = [] :=
  (OutgoingStream.initial_integrity sockfd).1

end Whole

/-- Messages stay whole and in order along a run exactly when no count and no size changes in
`int`. -/
theorem concurrent_sends_whole_iff (sockfd : ℤ) (es : List Event) :
    Always stepWithin Whole (initial sockfd) es ↔
      Guarded stepWithin StepFits (initial sockfd) es := by
  have haccounts := accounts_initial sockfd
  have hstream := stream_initial sockfd
  refine always_iff_guarded_of_invariant
    (Q := fun s => Accounts s ∧ s.conn.stream = (s.handed.map Prod.snd).flatten) ?_
    (whole_of_stream haccounts hstream) ⟨haccounts, hstream⟩ es
  rintro s e t - ⟨h, hstream⟩ hstep
  obtain ⟨hwithin, hstep⟩ := stepWithin_iff.mp hstep
  obtain ⟨hfits, hnext⟩ := fits_step h hstream hwithin hstep
  have hinv := accounts_step h hstep
  constructor
  · constructor
    · intro hwhole
      exact hfits (length_of_whole hinv hwhole)
    · intro hok
      exact whole_of_stream hinv (hnext hok)
  · intro hwhole
    exact ⟨hinv, hnext (hfits (length_of_whole hinv hwhole))⟩

/-- A message of `2 ^ 31` bytes, of which `::write` takes all but a page: `int` makes the size
negative, and the rest is dropped. -/
theorem huge_message_torn :
    ¬ Always stepWithin Whole (initial 5) [.send (List.replicate (2 ^ 31) 120) 2147479552] := by
  intro h
  have hlen : (List.replicate (2 ^ 31) (120 : UInt8)).length = 2 ^ 31 := List.length_replicate
  generalize List.replicate (2 ^ 31) (120 : UInt8) = message at h hlen
  have hwithin : ∀ op ∈ (initial 5).op (.send message 2147479552),
      op.Within (initial 5).conn := by
    intro op hop
    obtain rfl := Option.some.inj hop
    intro _
    omega
  have hstep : step (initial 5) (.send message 2147479552) = some _ := if_pos (by omega)
  have hwhole := h.2 _ (stepWithin_iff.mpr ⟨hwithin, hstep⟩)
  have haccounts := accounts_initial 5
  have hfits := (fits_step haccounts (stream_initial 5) hwithin hstep).1
    (length_of_whole (accounts_step haccounts hstep) hwhole)
  have hempty : (initial 5).conn.outBuf.readableBytes = 0 := by decide
  have hsize : toInt32 (2 ^ 31 : ℕ) = -2147483648 := by decide
  have hok := hfits _ rfl
  simp only [Op.Fits, OutgoingStream.SendOk, hempty, hlen, hsize, ↓reduceIte] at hok
  omega

end RpcMuduo.ConnectionLoop
