import RpcMuduo.ConnectionLoop
import RpcMuduo.StrongCount

/-!
# Several connections in one loop

Who owns the connections of a loop: the map of the server, the pointers of the clients, the
functors that bind a `shared_ptr`, and the handler that runs. The functors of a connection's
output hold a bare `this`.
-/
namespace RpcMuduo
open StrongCount

/-- `TcpServer::_connections` at a descriptor, or `TcpClient::_connection` of a client. -/
inductive Owner
  | connections (fd : ℤ)
  | connection (client : ℕ)
  deriving DecidableEq

/-- What waits in the loop for a connection; the first binds a `shared_ptr`. -/
inductive Task
  | connectEstablished
  | functor (f : Functor)
  deriving DecidableEq

/-- A callback of the user, and what keeps the connection alive until it returns. -/
inductive Callback
  | onConnection
  | onMessage
  | onWriteComplate
  | onClose
  deriving DecidableEq

structure SharedConnection where
  conn : TcpConnection
  owner : Owner
  deriving DecidableEq

/-- What `doPendingFunctors` has yet to run, and the `shared_ptr`s in the functors it has run:
they go when `tempRuns` does. -/
structure Batch where
  tempRuns : List (ℕ × Task)
  bound : List ℕ
  deriving DecidableEq

/-- Connections are known by the order in which they were made. -/
structure SharedLoop where
  objects : List SharedConnection
  refs : ℕ → ℕ
  owners : List (Owner × ℕ)
  callback : Option (Callback × ℕ)
  pendingFunctors : List (ℕ × Task)
  batch : Option Batch

namespace SharedLoop

/-- `newConnection` of the server on the thread of the loop, by the base loop for this one, or of
a client; then what the user and other threads send, what the poll reports, the return from the
callback, and the functors. -/
inductive Event
  | newConnection (sockfd : ℤ)
  | newConnectionFrom (sockfd : ℤ)
  | newClientConnection (client : ℕ) (sockfd : ℤ)
  | send (c : ℕ) (message : Bytes) (ret : ℤ)
  | sendFrom (c : ℕ) (message : Bytes)
  | handleRead (c : ℕ) (readlength : ℤ) (reset : Bool)
  | handleWrite (c : ℕ) (ret : ℤ)
  | handleClose (c : ℕ)
  | returnFrom
  | swapFunctors
  | runFunctor (ret : ℤ)
  | endBatch
  deriving DecidableEq

def initial : SharedLoop := ⟨[], fun _ => 0, [], none, [], none⟩

/-- The reference that a waiting functor holds. -/
def bound : ℕ × Task → Option ℕ
  | (c, .connectEstablished) => some c
  | (_, .functor _) => none

/-- The connection that a waiting functor names without holding it. -/
def named : ℕ × Task → Option ℕ
  | (_, .connectEstablished) => none
  | (c, .functor _) => some c

section Steps

variable (s : SharedLoop)

def tempRuns : List (ℕ × Task) := (s.batch.map Batch.tempRuns).getD []

def boundByBatch : List ℕ := (s.batch.map Batch.bound).getD []

/-- All strong references. -/
def held : List ℕ :=
  s.owners.map Prod.snd ++ (s.callback.map Prod.snd).toList ++
    (s.tempRuns ++ s.pendingFunctors).filterMap bound ++ s.boundByBatch

/-- The connections that functors with a bare `this` name. -/
def waiting : List ℕ := (s.tempRuns ++ s.pendingFunctors).filterMap named

def Alive (c : ℕ) : Prop := 0 < s.refs c

instance (c : ℕ) : Decidable (s.Alive c) := inferInstanceAs (Decidable (_ < _))

/-- The entries that an assignment to the owner overwrites. -/
def displaced (owner : Owner) : List ℕ :=
  (s.owners.filter fun p => p.1 = owner).map Prod.snd

def assign (owner : Owner) (c : ℕ) : SharedLoop :=
  { s with
    refs := (s.displaced owner).foldl release (retain s.refs c)
    owners := (owner, c) :: s.owners.filter fun p => p.1 ≠ owner }

/-- Whether `removeConnection` drops the entry: the server erases by descriptor, a client
compares the pointers. -/
def Removes (owner : Owner) (c : ℕ) (p : Owner × ℕ) : Prop :=
  match owner with
  | .connections _ => p.1 = owner
  | .connection _ => p = (owner, c)

instance (owner : Owner) (c : ℕ) (p : Owner × ℕ) : Decidable (Removes owner c p) :=
  match owner with
  | .connections _ => inferInstanceAs (Decidable (p.1 = _))
  | .connection _ => inferInstanceAs (Decidable (p = _))

def removed (owner : Owner) (c : ℕ) : List ℕ :=
  (s.owners.filter fun p => Removes owner c p).map Prod.snd

def removeConnection (owner : Owner) (c : ℕ) : SharedLoop :=
  { s with
    refs := (s.removed owner c).foldl release s.refs
    owners := s.owners.filter fun p => ¬ Removes owner c p }

/-- The user's callback gets a `shared_ptr`. -/
def enter (callback : Callback) (c : ℕ) : SharedLoop :=
  { s with refs := retain s.refs c, callback := some (callback, c) }

def leave (c : ℕ) : SharedLoop := { s with refs := release s.refs c, callback := none }

/-- The operation, and the functors it queues. -/
def perform (c : ℕ) (object : SharedConnection) (op : ConnectionLoop.Op) : SharedLoop :=
  let conn := op.apply object.conn
  { s with
    objects := s.objects.set c { object with conn := { conn with functors := [] } }
    pendingFunctors :=
      s.pendingFunctors ++ conn.functors.map fun f => (c, .functor f) }

def make (owner : Owner) (sockfd : ℤ) : SharedLoop :=
  { s with objects := s.objects ++ [⟨TcpConnection.new sockfd, owner⟩] }

/-- `connectEstablished`, with the `shared_ptr` that it binds. -/
def queueEstablished (c : ℕ) : SharedLoop :=
  { s with
    refs := retain s.refs c
    pendingFunctors := s.pendingFunctors ++ [(c, .connectEstablished)] }

/-- In the loop, outside of callbacks and functors. -/
def Handling : Prop := s.callback = none ∧ s.batch = none

instance : Decidable s.Handling := inferInstanceAs (Decidable (_ ∧ _))

end Steps

/-- The callback that `handleRead` ends in, if any. -/
def readCallback (c : TcpConnection) (readlength : ℤ) (reset : Bool) : Option Callback :=
  if c.channel.sockfd < 0 then none
  else if readlength > 0 then some .onMessage
  else if readlength = 0 then some .onClose
  else if reset then some .onClose
  else none

/-- The rest of the caller after the user's callback: a client keeps the connection, and the close
callback lets it go. -/
def finish (s : SharedLoop) (callback : Callback) (owner : Owner) (c : ℕ) : SharedLoop :=
  match callback, owner with
  | .onConnection, .connection client => s.assign (.connection client) c
  | .onClose, owner => s.removeConnection owner c
  | _, _ => s

/-- Only connections that are alive are used; a functor that runs on another one is refused. -/
@[grind =] def step (s : SharedLoop) : Event → Option SharedLoop
  | .newConnection sockfd =>
    if s.Handling then
      some (((s.make (.connections sockfd) sockfd).assign (.connections sockfd)
        s.objects.length).enter .onConnection s.objects.length)
    else none
  | .newConnectionFrom sockfd =>
    some (((s.make (.connections sockfd) sockfd).assign (.connections sockfd)
      s.objects.length).queueEstablished s.objects.length)
  | .newClientConnection client sockfd =>
    if s.Handling then
      some ((s.make (.connection client) sockfd).enter .onConnection s.objects.length)
    else none
  | .send c message ret =>
    match s.objects[c]? with
    | some object => if s.Alive c then some (s.perform c object (.send message ret)) else none
    | none => none
  | .sendFrom c message =>
    if s.Alive c then
      some { s with
        pendingFunctors := s.pendingFunctors ++ [(c, .functor (.onMessageCB message))] }
    else none
  | .handleRead c readlength reset =>
    match s.objects[c]? with
    | some object =>
      if s.Handling ∧ s.Alive c ∧ object.conn.channel.index = .kAdded then
        let t := s.perform c object (.read readlength reset)
        match readCallback object.conn readlength reset with
        | some callback => some (t.enter callback c)
        | none => some t
      else none
    | none => none
  | .handleWrite c ret =>
    match s.objects[c]? with
    | some object =>
      if s.Handling ∧ s.Alive c then some (s.perform c object (.write ret)) else none
    | none => none
  | .handleClose c =>
    match s.objects[c]? with
    | some object =>
      if s.Handling ∧ s.Alive c ∧ object.conn.channel.index = .kAdded then
        some ((s.perform c object .close).enter .onClose c)
      else none
    | none => none
  | .returnFrom =>
    match s.callback with
    | some (callback, c) =>
      match s.objects[c]? with
      | some object => some ((s.finish callback object.owner c).leave c)
      | none => none
    | none => none
  | .swapFunctors =>
    if s.Handling then
      some { s with batch := some ⟨s.pendingFunctors, []⟩, pendingFunctors := [] }
    else none
  | .runFunctor ret =>
    match s.callback, s.batch with
    | none, some ⟨(c, .connectEstablished) :: rest, bound⟩ =>
      some ({ s with batch := some ⟨rest, c :: bound⟩ }.enter .onConnection c)
    | none, some ⟨(c, .functor .onWriteComplateCB) :: rest, bound⟩ =>
      if s.Alive c then some ({ s with batch := some ⟨rest, bound⟩ }.enter .onWriteComplate c)
      else none
    | none, some ⟨(c, .functor (.onMessageCB message)) :: rest, bound⟩ =>
      match s.objects[c]? with
      | some object =>
        if s.Alive c then
          some ({ s with batch := some ⟨rest, bound⟩ }.perform c object (.send message ret))
        else none
      | none => none
    | _, _ => none
  | .endBatch =>
    match s.callback, s.batch with
    | none, some ⟨[], bound⟩ => some { s with refs := bound.foldl release s.refs, batch := none }
    | _, _ => none

/-- The references that the step gives up; that of `TcpClient::newConnection` passes to
`_connection`. -/
def dropped (s : SharedLoop) : Event → List ℕ
  | .newConnection sockfd | .newConnectionFrom sockfd => s.displaced (.connections sockfd)
  | .returnFrom =>
    match s.callback with
    | some (callback, c) =>
      match callback, (s.objects[c]?).map SharedConnection.owner with
      | .onConnection, some (.connection client) => s.displaced (.connection client)
      | .onClose, some owner => c :: s.removed owner c
      | _, _ => [c]
    | none => []
  | .endBatch => s.boundByBatch
  | _ => []

end SharedLoop

end RpcMuduo
