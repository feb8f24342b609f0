import RpcMuduo.CodecStream
import RpcMuduo.Endpoint
import RpcMuduo.SharedFate

/-!
# RpcServer

A server process: its connections, each with its input buffer and its channel, and the end of
the process, by the error callback of the codec or by an exception that nothing catches.
-/
namespace RpcMuduo
open RpcMeta

/-- What a service makes of a request, as a function of the request alone: the response, and
whether the closure is run before the method returns. -/
structure Completion (M : Type*) where
  response : M
  inside : Bool

/-- A channel with the frames it has sent; `exited` when the process has ended in it. -/
structure Session (M : Type*) where
  endpoint : Endpoint M
  frames : List Bytes
  exited : Bool

structure Connection (M : Type*) where
  inBuf : Buffer
  session : Session M
  closed : Bool

/-- What may happen to one connection; `read` gives the bytes that `readFd` got. -/
inductive Input
  | accept (id : CallId)
  | read (data : Bytes)
  | runDone (k : ℕ)
  | close

structure RpcServer (M : Type*) where
  runtime : Runtime
  services : List (Service M)
  handler : Dispatch M → Completion M

/-- Messages handed to `_codec.send` one after the other; an exception ends the process. -/
def sendAll (send : RpcMetaMessage → Except ProtobufCodecLite.EncodeError Bytes) :
    List RpcMetaMessage → List Bytes × Bool
  | [] => ([], false)
  | message :: messages =>
    match send message with
    | .ok frame =>
      let r := sendAll send messages
      (frame :: r.1, r.2)
    | .error _ => ([], true)

namespace RpcServer

variable {M : Type*} (server : RpcServer M)

/-- Every channel has its own codec, with the tag "RPC0". -/
def codec : ProtobufCodecLite := ⟨server.runtime, [82, 80, 67, 48]⟩

/-- Go on with an endpoint that may have sent messages. -/
def advance (s : Session M) (e : Endpoint M) : Session M :=
  let r := sendAll server.codec.send (e.sent.drop s.endpoint.sent.length)
  ⟨e, s.frames ++ r.1, r.2⟩

/-- The closure of the request just dispatched, when its service runs it inside the method. -/
def runInside (e : Endpoint M) : Endpoint M :=
  match e.frame, e.pending.getLast? with
  | some .serving, some p =>
    let c := server.handler p.target
    if c.inside then e.doneCallback (e.pending.length - 1) p c.response else e
  | _, _ => e

def messageCallback (s : Session M) (message : RpcMetaMessage) : Session M :=
  if s.exited then s
  else server.advance s (server.runInside (s.endpoint.onRpcMessage message)).settle.settle

/-- `defaultErrorCallback`: `RpcChannel` installs no other, and it calls `exit(-1)`. -/
def errorCallback (s : Session M) (_ : ProtobufCodecLite.ErrorCode) : Session M :=
  { s with exited := true }

/-- A service runs the `k`-th closure of the connection. -/
def runDone (s : Session M) (k : ℕ) : Session M :=
  match s.endpoint.pending[k]? with
  | some p => server.advance s
      (s.endpoint.doneCallback k p (server.handler p.target).response)
  | none => s

/-- `onConnection` makes the channel; its constructor leaves `_id` unset. -/
def newConnection (id : CallId) : Connection M where
  inBuf := Buffer.new Buffer.kInitialSize
  session :=
    { endpoint := .initial (RpcChannel.new id (some (registerServices server.services)))
      frames := []
      exited := false }
  closed := false

/-- `readFd`, then `onMessage` on the buffer; nothing read means that the peer has closed. -/
def handleRead (c : Connection M) (data : Bytes) : Connection M :=
  if data = [] then { c with closed := true }
  else
    match server.codec.onMessage server.messageCallback errorCallback (c.inBuf.readFd data)
      c.session with
    | some (buf, session) => { c with inBuf := buf, session := session }
    | none => c

/-- One connection on its own. A closed one reads no more, but its channel stays and its
closures may still be run. -/
def next : Option (Connection M) → Input → Option (Connection M)
  | none, .accept id => some (server.newConnection id)
  | none, _ => none
  | some c, .accept _ => some c
  | some c, .read data => some (if c.closed then c else server.handleRead c data)
  | some c, .runDone k => some { c with session := server.runDone c.session k }
  | some c, .close => some { c with closed := true }

def stop (c : Option (Connection M)) : Bool := c.any fun c => c.session.exited

/-- Connections are known by number; none is open at the start. -/
def initial : SharedFate.Process ℕ (Option (Connection M)) := ⟨fun _ => none, false⟩

def run (es : List (ℕ × Input)) : SharedFate.Process ℕ (Option (Connection M)) :=
  SharedFate.run server.next stop initial es

/-- The frames sent on a connection so far. -/
def frames (c : Option (Connection M)) : List Bytes :=
  c.elim [] fun c => c.session.frames

end RpcServer

end RpcMuduo
