import RpcMuduo.Run

/-!
# TcpServer

The base loop accepts connections and sets them up step by step, while the IO loop of each
polls, handles what is ready and runs its pending functors. Loop 0 is the base loop, loop
`i + 1` the `i`-th of the thread pool. Connections are known by their order of acceptance.
-/
namespace RpcMuduo

namespace TcpServer

/-- A channel that a poll may return. That of the eventfd does nothing but end the wait. -/
inductive Source
  | acceptor
  | connection (c : ℕ)
  deriving DecidableEq

/-- What the poll found on a channel: so many bytes, an error on reading, or no more peer. -/
inductive Ready
  | readable (readlength : ℕ)
  | failed (reset : Bool)
  | hangup
  | writable
  deriving DecidableEq

/-- A `TcpConnection`: whether its two pointers are set, and whether its channel is in the epoll
of its loop. -/
structure Connection where
  loop : ℕ
  user : Bool
  closeCallback : Bool
  registered : Bool
  deriving DecidableEq

/-- How far `newConnection` has come with the connection at hand. -/
inductive Stage
  | constructed
  | userSet
  | closeCallbackSet
  deriving DecidableEq

inductive Phase
  | polling
  | handling (activeChannels : List Source)
  | running (functors : List ℕ)
  deriving DecidableEq

/-- The functors that matter here are `connectEstablished` of some connection. -/
structure LoopState where
  phase : Phase
  pendingFunctors : List ℕ

/-- What has been called for a connection; `handleRead` with whether the user pointer was set. -/
inductive Called
  | handleRead (c : ℕ) (user : Bool)
  | onConnection (c : ℕ)
  | onMessage (c : ℕ)
  | onClose (c : ℕ)
  deriving DecidableEq

end TcpServer

open TcpServer in
/-- `ioLoops` is the number of loops of the thread pool; `log` is a history. -/
structure TcpServer where
  ioLoops : ℕ
  nextLoop : ℕ
  loops : ℕ → LoopState
  connections : List TcpServer.Connection
  accepting : Option (Stage × ℕ)
  log : List Called

namespace TcpServer

inductive Event
  | poll (l : ℕ) (activeChannels : List Source)
  | handle (l : ℕ) (ready : Ready)
  | accept
  | swapFunctors (l : ℕ)
  | runFunctor (l : ℕ)
  | nextRound (l : ℕ)
  deriving DecidableEq

/-- A server with its user set and `n` IO threads. -/
def initial (n : ℕ) : TcpServer where
  ioLoops := n
  nextLoop := 0
  loops := fun _ => ⟨.polling, []⟩
  connections := []
  accepting := none
  log := []

section Steps

variable (s : TcpServer)

def setPhase (l : ℕ) (phase : Phase) : TcpServer :=
  { s with loops := Function.update s.loops l { s.loops l with phase := phase } }

/-- Round robin over the IO loops, the base loop when there is none. -/
def getNextLoop : ℕ × ℕ :=
  if s.ioLoops = 0 then (0, s.nextLoop)
  else (s.nextLoop + 1, if s.ioLoops ≤ s.nextLoop + 1 then 0 else s.nextLoop + 1)

/-- The start of `newConnection`: the constructor registers the channel with the chosen loop. -/
def construct : TcpServer :=
  { s with
    nextLoop := s.getNextLoop.2
    connections := s.connections ++ [⟨s.getNextLoop.1, false, false, true⟩]
    accepting := some (.constructed, s.connections.length) }

def modifyConnection (c : ℕ) (f : Connection → Connection) : TcpServer :=
  { s with connections := s.connections.modify c f }

def call (called : Called) : TcpServer := { s with log := s.log ++ [called] }

def connectEstablished (c : ℕ) (conn : Connection) : TcpServer :=
  if conn.user then s.call (.onConnection c) else s

def handleClose (c : ℕ) (conn : Connection) : TcpServer :=
  let s := s.modifyConnection c fun conn => { conn with registered := false }
  if conn.user then s.call (.onClose c) else s

/-- With no user the call of `onMessage` goes through a null pointer; nothing more is recorded. -/
def handleRead (c : ℕ) (conn : Connection) (readlength : ℕ) : TcpServer :=
  let s := s.call (.handleRead c conn.user)
  if 0 < readlength then
    if conn.user then s.call (.onMessage c) else s
  else s.handleClose c conn

/-- `Channel::handleEvent`. Nothing is being written before the connection is established. -/
def handleEvent (c : ℕ) (conn : Connection) : Ready → TcpServer
  | .readable readlength => s.handleRead c conn readlength
  | .failed reset =>
    let s := s.call (.handleRead c conn.user)
    if reset then s.handleClose c conn else s
  | .hangup => s.handleClose c conn
  | .writable => s

/-- The rest of `newConnection`. On the thread of the loop `runInLoop` calls at once. -/
def acceptStep (stage : Stage) (c : ℕ) (conn : Connection) : TcpServer :=
  match stage with
  | .constructed =>
    { s.modifyConnection c fun conn => { conn with user := true } with
      accepting := some (.userSet, c) }
  | .userSet =>
    { s.modifyConnection c fun conn => { conn with closeCallback := true } with
      accepting := some (.closeCallbackSet, c) }
  | .closeCallbackSet =>
    if conn.loop = 0 then { s.connectEstablished c conn with accepting := none }
    else
      { s with
        accepting := none
        loops := Function.update s.loops conn.loop
          { s.loops conn.loop with
            pendingFunctors := (s.loops conn.loop).pendingFunctors ++ [c] } }

/-- The channel is in the epoll of loop `l`. -/
def Registered (l : ℕ) : Source → Prop
  | .acceptor => l = 0
  | .connection c => ∃ conn, s.connections[c]? = some conn ∧ conn.loop = l ∧ conn.registered = true

/-- The thread of the loop is not inside `newConnection`. -/
def Free (l : ℕ) : Prop := l = 0 → s.accepting = none

instance (l : ℕ) : DecidablePred (s.Registered l)
  | .acceptor => inferInstanceAs (Decidable (l = 0))
  | .connection c =>
    match h : s.connections[c]? with
    | none => isFalse (by simp [Registered, h])
    | some conn =>
      decidable_of_iff (conn.loop = l ∧ conn.registered = true) (by simp [Registered, h])

instance (l : ℕ) : Decidable (s.Free l) := inferInstanceAs (Decidable (_ → _))

end Steps

@[grind =] def step (s : TcpServer) : Event → Option TcpServer
  | .poll l activeChannels =>
    if l ≤ s.ioLoops ∧ (s.loops l).phase = .polling ∧ ∀ src ∈ activeChannels, s.Registered l src
    then some (s.setPhase l (.handling activeChannels)) else none
  | .handle l ready =>
    match (s.loops l).phase with
    | .handling (src :: activeChannels) =>
      if s.Free l then
        let s := s.setPhase l (.handling activeChannels)
        match src with
        | .acceptor => some s.construct
        | .connection c => s.connections[c]?.map fun conn => s.handleEvent c conn ready
      else none
    | _ => none
  | .accept =>
    match s.accepting with
    | some (stage, c) => s.connections[c]?.map (s.acceptStep stage c)
    | none => none
  | .swapFunctors l =>
    if (s.loops l).phase = .handling [] ∧ s.Free l then
      some { s with
        loops := Function.update s.loops l ⟨.running (s.loops l).pendingFunctors, []⟩ }
    else none
  | .runFunctor l =>
    match (s.loops l).phase with
    | .running (c :: functors) =>
      s.connections[c]?.map ((s.setPhase l (.running functors)).connectEstablished c)
    | _ => none
  | .nextRound l =>
    if (s.loops l).phase = .running [] then some (s.setPhase l .polling) else none

section StepCases

variable {s t : TcpServer}

lemma step_poll {l : ℕ} {activeChannels : List Source}
    (h : step s (.poll l activeChannels) = some t) :
    l ≤ s.ioLoops ∧ (s.loops l).phase = .polling ∧ (∀ src ∈ activeChannels, s.Registered l src) ∧
      t = s.setPhase l (.handling activeChannels) := by
  simp only [step, Option.ite_none_right_eq_some, Option.some.injEq] at h
  exact ⟨h.1.1, h.1.2.1, h.1.2.2, h.2.symm⟩

lemma step_handle {l : ℕ} {ready : Ready} (h : step s (.handle l ready) = some t) :
    ∃ src activeChannels, (s.loops l).phase = .handling (src :: activeChannels) ∧ s.Free l ∧
      ((src = .acceptor ∧ t = (s.setPhase l (.handling activeChannels)).construct) ∨
        ∃ c conn, src = .connection c ∧ s.connections[c]? = some conn ∧
          t = (s.setPhase l (.handling activeChannels)).handleEvent c conn ready) := by
  simp only [step] at h
  split at h
  · rename_i src activeChannels hphase
    rw [Option.ite_none_right_eq_some] at h
    obtain ⟨hfree, h⟩ := h
    refine ⟨src, activeChannels, hphase, hfree, ?_⟩
    cases src with
    | acceptor => exact Or.inl ⟨rfl, (Option.some.inj h).symm⟩
    | connection c =>
      obtain ⟨conn, hconn, rfl⟩ := Option.map_eq_some_iff.mp h
      exact Or.inr ⟨c, conn, rfl, hconn, rfl⟩
  · cases h

lemma step_accept (h : step s .accept = some t) : ∃ stage c conn,
    s.accepting = some (stage, c) ∧ s.connections[c]? = some conn ∧
      t = s.acceptStep stage c conn := by
  simp only [step] at h
  split at h
  · rename_i stage c haccepting
    obtain ⟨conn, hconn, rfl⟩ := Option.map_eq_some_iff.mp h
    exact ⟨stage, c, conn, haccepting, hconn, rfl⟩
  · cases h

lemma step_swapFunctors {l : ℕ} (h : step s (.swapFunctors l) = some t) :
    (s.loops l).phase = .handling [] ∧ s.Free l ∧
      t = { s with
        loops := Function.update s.loops l ⟨.running (s.loops l).pendingFunctors, []⟩ } := by
  simp only [step, Option.ite_none_right_eq_some, Option.some.injEq] at h
  exact ⟨h.1.1, h.1.2, h.2.symm⟩

lemma step_runFunctor {l : ℕ} (h : step s (.runFunctor l) = some t) : ∃ c functors conn,
    (s.loops l).phase = .running (c :: functors) ∧ s.connections[c]? = some conn ∧
      t = (s.setPhase l (.running functors)).connectEstablished c conn := by
  simp only [step] at h
  split at h
  · rename_i c functors hphase
    obtain ⟨conn, hconn, rfl⟩ := Option.map_eq_some_iff.mp h
    exact ⟨c, functors, conn, hphase, hconn, rfl⟩
  · cases h

lemma step_nextRound {l : ℕ} (h : step s (.nextRound l) = some t) :
    (s.loops l).phase = .running [] ∧ t = s.setPhase l .polling := by
  simp only [step, Option.ite_none_right_eq_some, Option.some.injEq] at h
  exact ⟨h.1, h.2.symm⟩

end StepCases

end TcpServer

end RpcMuduo
