import RpcMuduo.Run
import RpcMuduo.TcpConnection

/-!
# A connection in its loop

Sends from the thread of the loop and from other threads, the functors the loop runs, and the
handlers of the connection's channel. What the user does in a callback shows as the sends that
follow. Thread 0 is that of the loop.
-/
namespace RpcMuduo
open CInt

/-- A functor is queued with the thread that queued it; `tempRuns` is what `doPendingFunctors`
has yet to run of its batch. The rest is history: the messages passed to `send`, those on which
`sendInLoop` has run, and the lengths of the logs when the connection was closed. -/
structure ConnectionLoop where
  conn : TcpConnection
  pendingFunctors : List (ℕ × Functor)
  tempRuns : List (ℕ × Functor)
  sent : List (ℕ × Bytes)
  handed : List (ℕ × Bytes)
  closed : Option (ℕ × ℕ)

namespace ConnectionLoop

inductive Event
  | send (message : Bytes) (ret : ℤ)
  | sendFrom (thread : ℕ) (message : Bytes)
  | swapFunctors
  | runFunctor (ret : ℤ)
  | handleRead (readlength : ℤ) (reset : Bool)
  | handleWrite (ret : ℤ)
  | handleClose
  deriving DecidableEq

/-- What a step does to the connection. -/
inductive Op
  | send (message : Bytes) (ret : ℤ)
  | write (ret : ℤ)
  | read (readlength : ℤ) (reset : Bool)
  | close

def Op.apply (c : TcpConnection) : Op → TcpConnection
  | .send message ret => (c.sendInLoop message ret).1
  | .write ret => c.handleWrite ret
  | .read readlength reset => c.handleRead readlength reset
  | .close => c.handleClose

/-- Only a registered descriptor is read or closed. -/
def Op.Enabled (c : TcpConnection) : Op → Prop
  | .read _ _ | .close => c.channel.index = .kAdded
  | .send _ _ | .write _ => True

def initial (sockfd : ℤ) : ConnectionLoop := ⟨TcpConnection.new sockfd, [], [], [], [], none⟩

section Steps

variable (s : ConnectionLoop)

/-- The loop takes over the functors that the connection has queued. -/
def perform (op : Op) : ConnectionLoop :=
  let c := op.apply s.conn
  { s with
    conn := { c with functors := [] }
    pendingFunctors := s.pendingFunctors ++ c.functors.map (Prod.mk 0)
    closed := if s.closed = none ∧ c.channel.index = .kDeleted
      then some (c.writes.length, c.ctls.length) else s.closed }

def sendInLoop (thread : ℕ) (message : Bytes) (ret : ℤ) : ConnectionLoop :=
  { s.perform (.send message ret) with handed := s.handed ++ [(thread, message)] }

def noteSent (thread : ℕ) (message : Bytes) : ConnectionLoop :=
  { s with sent := s.sent ++ [(thread, message)] }

end Steps

/-- A `std::string` is shorter than `2 ^ 63`. Only a registered descriptor is reported, but
`handleWrite` may follow `handleClose` for the same report. -/
@[grind =] def step (s : ConnectionLoop) : Event → Option ConnectionLoop
  | .send message ret =>
    if message.length < 2 ^ 63 then some ((s.noteSent 0 message).sendInLoop 0 message ret)
    else none
  | .sendFrom thread message =>
    if message.length < 2 ^ 63 ∧ thread ≠ 0 then
      some { s.noteSent thread message with
        pendingFunctors := s.pendingFunctors ++ [(thread, .onMessageCB message)] }
    else none
  | .swapFunctors =>
    if s.tempRuns = [] then some { s with tempRuns := s.pendingFunctors, pendingFunctors := [] }
    else none
  | .runFunctor ret =>
    match s.tempRuns with
    | [] => none
    | (thread, .onMessageCB message) :: rest =>
      some ({ s with tempRuns := rest }.sendInLoop thread message ret)
    | (_, .onWriteComplateCB) :: rest => some { s with tempRuns := rest }
  | .handleRead readlength reset =>
    if s.conn.channel.index = .kAdded then some (s.perform (.read readlength reset)) else none
  | .handleWrite ret => some (s.perform (.write ret))
  | .handleClose =>
    if s.conn.channel.index = .kAdded then some (s.perform .close) else none

/-- What the step does to the connection, if anything. -/
def op (s : ConnectionLoop) : Event → Option Op
  | .send message ret => some (.send message ret)
  | .runFunctor ret =>
    match s.tempRuns with
    | (_, .onMessageCB message) :: _ => some (.send message ret)
    | _ => none
  | .handleRead readlength reset => some (.read readlength reset)
  | .handleWrite ret => some (.write ret)
  | .handleClose => some .close
  | .sendFrom _ _ | .swapFunctors => none

section Functors

variable (c : TcpConnection)

lemma functors_bufferRest (message : Bytes) (n : ℤ) :
    (c.bufferRest message n).1.functors = c.functors := by
  unfold TcpConnection.bufferRest
  split
  · split
    · rfl
    · simp only
      split <;> rfl
  · rfl

/-- Only a message that goes out whole queues a functor. -/
lemma functors_sendInLoop (message : Bytes) (ret : ℤ) :
    (c.sendInLoop message ret).1.functors =
      if c.outBuf.readableBytes = 0 ∧ toInt32 ret = toInt32 message.length
      then c.functors ++ [.onWriteComplateCB] else c.functors := by
  unfold TcpConnection.sendInLoop
  by_cases hempty : c.outBuf.readableBytes = 0
  · rw [if_pos hempty, functors_bufferRest]
    unfold TcpConnection.directWrite
    by_cases hwhole : toInt32 ret = toInt32 message.length
    · simp [hempty, hwhole, TcpConnection.queueInLoop, TcpConnection.write]
    · simp [hwhole, TcpConnection.write]
  · rw [if_neg hempty, functors_bufferRest, if_neg fun h => hempty h.1]

lemma functors_handleWrite (ret : ℤ) : (c.handleWrite ret).functors = c.functors ∨
    (c.handleWrite ret).functors = c.functors ++ [.onWriteComplateCB] := by
  unfold TcpConnection.handleWrite
  split
  · simp only
    split
    · split
      · exact Or.inr rfl
      · exact Or.inl rfl
    · exact Or.inl rfl
  · exact Or.inl rfl

/-- An operation queues at most one functor, and that carries no message. -/
lemma functors_apply (op : Op) : (op.apply c).functors = c.functors ∨
    (op.apply c).functors = c.functors ++ [.onWriteComplateCB] := by
  cases op with
  | send message ret =>
    rw [Op.apply, functors_sendInLoop]
    split
    · exact Or.inr rfl
    · exact Or.inl rfl
  | write ret => exact functors_handleWrite c ret
  | read readlength reset =>
    rcases c.handleRead_cases readlength reset with hread | hread
    · exact Or.inl (by rw [Op.apply, hread])
    · exact Or.inl (by rw [Op.apply, hread]; rfl)
  | close => exact Or.inl rfl

/-- An operation adds no message to the queue. -/
lemma mem_pendingFunctors_perform {s : ConnectionLoop} (h : s.conn.functors = []) {op : Op}
    {p : ℕ × Functor} (hp : p ∈ (s.perform op).pendingFunctors) :
    p ∈ s.pendingFunctors ∨ p = (0, .onWriteComplateCB) := by
  simp only [perform, List.mem_append, List.mem_map] at hp
  rcases hp with hp | ⟨f, hf, rfl⟩
  · exact Or.inl hp
  · rcases functors_apply s.conn op with hfunctors | hfunctors
    · rw [hfunctors, h] at hf
      cases hf
    · rw [hfunctors, h, List.nil_append, List.mem_singleton] at hf
      exact Or.inr (by rw [hf])

end Functors

section StepCases

variable {s t : ConnectionLoop}

lemma step_send {message : Bytes} {ret : ℤ} (h : step s (.send message ret) = some t) :
    message.length < 2 ^ 63 ∧ t = (s.noteSent 0 message).sendInLoop 0 message ret := by
  simp only [step, Option.ite_none_right_eq_some, Option.some.injEq] at h
  exact ⟨h.1, h.2.symm⟩

lemma step_sendFrom {thread : ℕ} {message : Bytes}
    (h : step s (.sendFrom thread message) = some t) :
    message.length < 2 ^ 63 ∧ thread ≠ 0 ∧ t = { s.noteSent thread message with
      pendingFunctors := s.pendingFunctors ++ [(thread, .onMessageCB message)] } := by
  simp only [step, Option.ite_none_right_eq_some, Option.some.injEq] at h
  exact ⟨h.1.1, h.1.2, h.2.symm⟩

lemma step_swapFunctors (h : step s .swapFunctors = some t) : s.tempRuns = [] ∧
    t = { s with tempRuns := s.pendingFunctors, pendingFunctors := [] } := by
  simp only [step, Option.ite_none_right_eq_some, Option.some.injEq] at h
  exact ⟨h.1, h.2.symm⟩

lemma step_runFunctor {ret : ℤ} (h : step s (.runFunctor ret) = some t) :
    (∃ thread message rest, s.tempRuns = (thread, .onMessageCB message) :: rest ∧
      t = { s with tempRuns := rest }.sendInLoop thread message ret) ∨
    ∃ thread rest, s.tempRuns = (thread, .onWriteComplateCB) :: rest ∧
      t = { s with tempRuns := rest } := by
  simp only [step] at h
  split at h
  · cases h
  · rename_i thread message rest hruns
    exact Or.inl ⟨thread, message, rest, hruns, (Option.some.inj h).symm⟩
  · rename_i thread rest hruns
    exact Or.inr ⟨thread, rest, hruns, (Option.some.inj h).symm⟩

lemma step_handleRead {readlength : ℤ} {reset : Bool}
    (h : step s (.handleRead readlength reset) = some t) :
    s.conn.channel.index = .kAdded ∧ t = s.perform (.read readlength reset) := by
  simp only [step, Option.ite_none_right_eq_some, Option.some.injEq] at h
  exact ⟨h.1, h.2.symm⟩

lemma step_handleWrite {ret : ℤ} (h : step s (.handleWrite ret) = some t) :
    t = s.perform (.write ret) := by
  simp only [step, Option.some.injEq] at h
  exact h.symm

lemma step_handleClose (h : step s .handleClose = some t) :
    s.conn.channel.index = .kAdded ∧ t = s.perform .close := by
  simp only [step, Option.ite_none_right_eq_some, Option.some.injEq] at h
  exact ⟨h.1, h.2.symm⟩

/-- The step as the connection sees it. -/
lemma step_conn {e : Event} (h : step s e = some t) :
    (s.op e = none ∧ t.conn = s.conn ∧ t.closed = s.closed) ∨
      ∃ op, s.op e = some op ∧ op.Enabled s.conn ∧ t.conn = (s.perform op).conn ∧
        t.closed = (s.perform op).closed := by
  cases e with
  | send message ret =>
    obtain ⟨-, rfl⟩ := step_send h
    exact Or.inr ⟨_, rfl, trivial, rfl, rfl⟩
  | sendFrom thread message =>
    obtain ⟨-, -, rfl⟩ := step_sendFrom h
    exact Or.inl ⟨rfl, rfl, rfl⟩
  | swapFunctors =>
    obtain ⟨-, rfl⟩ := step_swapFunctors h
    exact Or.inl ⟨rfl, rfl, rfl⟩
  | runFunctor ret =>
    obtain ⟨thread, message, rest, hruns, rfl⟩ | ⟨thread, rest, hruns, rfl⟩ := step_runFunctor h
    · exact Or.inr ⟨.send message ret, by simp [op, hruns], trivial, rfl, rfl⟩
    · exact Or.inl ⟨by simp [op, hruns], rfl, rfl⟩
  | handleRead readlength reset =>
    obtain ⟨hindex, rfl⟩ := step_handleRead h
    exact Or.inr ⟨_, rfl, hindex, rfl, rfl⟩
  | handleWrite ret =>
    obtain rfl := step_handleWrite h
    exact Or.inr ⟨_, rfl, trivial, rfl, rfl⟩
  | handleClose =>
    obtain ⟨hindex, rfl⟩ := step_handleClose h
    exact Or.inr ⟨_, rfl, hindex, rfl, rfl⟩

end StepCases

end ConnectionLoop

end RpcMuduo
