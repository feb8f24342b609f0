import RpcMuduo.Endpoint
import RpcMuduo.OutgoingStream
import RpcMuduo.RpcFrames

/-!
# A client and a server over TCP

The two ends down to the bytes: the functors in which other threads leave their messages for the
loop thread, the output side of the connection, what the kernels hold, the input buffer and the
loop of `onMessage`. The results of the system calls are arguments.
-/
namespace RpcMuduo
open OutgoingStream (WriteReturns)
open RpcMeta Run StreamDecoder

/-- A `send` from a thread other than the loop thread, as it waits in the loop. -/
inductive Posted (M : Type*)
  | request (call : Call M)
  | reply (p : PendingDone M) (response : M)

/-- One process with its end of the connection. `taken` counts the bytes of the other end that it
has read; `reading` says that the loop thread is inside `onMessage` of the codec. -/
structure Peer (M : Type*) where
  endpoint : Endpoint M
  posted : List (Posted M)
  conn : TcpConnection
  inBuf : Buffer
  taken : ℕ
  reading : Bool
  exited : Bool

namespace Posted

variable {M : Type*}

def message : Posted M → RpcMetaMessage
  | .request call => RpcChannel.requestMessage call.args call.id
  | .reply p response => RpcChannel.doneCallback p.target.method response p.id

def request? : Posted M → Option (Call M)
  | .request call => some call
  | .reply _ _ => none

def reply? : Posted M → Option (PendingDone M)
  | .request _ => none
  | .reply p _ => some p

/-- The endpoint after the message was sent. -/
def sendIn (e : Endpoint M) (posted : Posted M) : Endpoint M :=
  match posted with
  | .request _ => { e with sent := e.sent ++ [posted.message] }
  | .reply p response =>
    { e with
      answered := e.answered ++ [(p, response)]
      sent := e.sent ++ [posted.message] }

end Posted

namespace Peer

/-- What the loop thread of an end does: `read n` is `readFd` with `n` bytes, `decode` one turn of
`onMessage`, `resume` the rest of `onRpcMessage`, `runPosted` the functor at the head and `write`
an `EPOLLOUT`. The result of `::write` stands where one may be called. -/
inductive LoopEvent
  | read (n : ℕ)
  | decode (ret : ℤ)
  | resume
  | runPosted (ret : ℤ)
  | write (ret : ℤ)

variable {M : Type*}

def new (endpoint : Endpoint M) (sockfd : ℤ) : Peer M where
  endpoint := endpoint
  posted := []
  conn := TcpConnection.new sockfd
  inBuf := Buffer.new Buffer.kInitialSize
  taken := 0
  reading := false
  exited := false

variable (codec : ProtobufCodecLite) (p : Peer M)

/-- After `sendInLoop`; an exception that nothing catches ends the process. -/
def afterSend (r : TcpConnection × Outcome) : Peer M :=
  { p with
    conn := r.1
    exited := p.exited || r.2 == .outOfRange }

/-- The end of `_codec.send` in the loop thread, on the frame or the exception. -/
def transmit (frame : Except ProtobufCodecLite.EncodeError Bytes) (ret : ℤ) : Option (Peer M) :=
  match frame with
  | .ok frame =>
    if p.conn.outBuf.readableBytes = 0 → WriteReturns frame.length ret then
      some (p.afterSend (p.conn.sendInLoop frame ret))
    else none
  | .error _ => some { p with exited := true }

/-- Go on with an endpoint that may have sent messages in the loop thread. -/
def advance (e : Endpoint M) (ret : ℤ) : Option (Peer M) :=
  (e.sent.drop p.endpoint.sent.length).foldlM (fun p message => p.transmit (codec.send message) ret)
    { p with endpoint := e }

/-- The end of `_codec.send` in another thread: the frame is left to the loop thread. -/
def post (e : Endpoint M) (posted : Posted M) (frame : Except ProtobufCodecLite.EncodeError Bytes) :
    Peer M :=
  { p with
    endpoint := e
    posted := p.posted ++ [posted]
    exited := p.exited || !frame.isOk }

/-- At most `writableBytes` and the 65536 bytes of `extrabuf` are read at once. -/
def read (incoming : Bytes) (n : ℕ) : Option (Peer M) :=
  if 0 < n ∧ n ≤ p.inBuf.writableBytes + 65536 ∧ p.taken + n ≤ incoming.length then
    some { p with
      inBuf := p.inBuf.readFd ((incoming.drop p.taken).take n)
      taken := p.taken + n
      reading := true }
  else none

/-- A turn of `onMessage` on its verdict; `defaultErrorCallback` ends the process. -/
def decode (verdict : Verdict RpcMetaMessage ProtobufCodecLite.ErrorCode) (ret : ℤ) :
    Option (Peer M) :=
  match verdict with
  | .more => some { p with reading := false }
  | .fail _ => some { p with exited := true }
  | .item n message =>
    { p with inBuf := p.inBuf.retrieve n }.advance codec (p.endpoint.onRpcMessage message) ret

/-- Between its handlers the loop thread is not inside `onMessage`. -/
def loopStep (incoming : Bytes) : LoopEvent → Option (Peer M)
  | .read n => if p.reading then none else p.read incoming n
  | .decode ret => if p.reading ∧ p.endpoint.frame = none then
      p.decode codec (codec.onMessageTurn p.inBuf) ret
    else none
  | .resume => p.endpoint.frame.map fun frame => { p with endpoint := p.endpoint.resumeFrame frame }
  | .runPosted ret =>
    match p.posted with
    | [] => none
    | posted :: rest =>
      if p.reading then none
      else { p with posted := rest }.advance codec (posted.sendIn p.endpoint) ret
  | .write ret =>
    if p.reading ∨
        (p.conn.channel.isWriting = true ∧ ¬ WriteReturns p.conn.outBuf.readableBytes ret) then
      none
    else some { p with conn := p.conn.handleWrite ret }

end Peer

structure RpcOverTcp (M : Type*) where
  client : Peer M
  server : Peer M

namespace RpcOverTcp

/-- `begin`, `register`, `post` and `send` are the parts of a `CallMethod`, with its last part in a
thread of its own or in the loop thread; `postDone` and `done` are a service running a closure in
a thread of its own or in the loop thread. -/
inductive Event (M : Type*)
  | begin (args : CallArgs M)
  | register (k : ℕ)
  | post (k : ℕ)
  | send (k : ℕ) (ret : ℤ)
  | postDone (k : ℕ) (response : M)
  | done (k : ℕ) (response : M) (ret : ℤ)
  | client (e : Peer.LoopEvent)
  | server (e : Peer.LoopEvent)

variable {M : Type*}

def initial (clientId serverId : CallId) (services : List (Service M)) (clientfd serverfd : ℤ) :
    RpcOverTcp M where
  client := Peer.new (Endpoint.initial (RpcChannel.new clientId none)) clientfd
  server := Peer.new (Endpoint.initial
    (RpcChannel.new serverId (some (registerServices services)))) serverfd

/-- A process that has ended takes no step. -/
def clientStep (s : RpcOverTcp M) (f : Peer M → Option (Peer M)) : Option (RpcOverTcp M) :=
  if s.client.exited then none else (f s.client).map fun client => { s with client := client }

def serverStep (s : RpcOverTcp M) (f : Peer M → Option (Peer M)) : Option (RpcOverTcp M) :=
  if s.server.exited then none else (f s.server).map fun server => { s with server := server }

/-- What the kernel of one end has taken is what the other end may read. -/
@[grind =] def step (codec : ProtobufCodecLite) (s : RpcOverTcp M) : Event M → Option (RpcOverTcp M)
  | .begin args => s.clientStep fun p => some { p with endpoint := p.endpoint.beginCall args }
  | .register k => s.clientStep fun p => p.endpoint.started[k]?.map fun call =>
      { p with endpoint := p.endpoint.registerCall k call }
  | .post k => s.clientStep fun p => p.endpoint.registered[k]?.map fun call =>
      p.post { p.endpoint with registered := p.endpoint.registered.eraseIdx k } (.request call)
        (codec.send (Posted.request call).message)
  | .send k ret => s.clientStep fun p => p.endpoint.registered[k]?.bind fun call =>
      p.advance codec (p.endpoint.sendCall k call) ret
  | .postDone k response => s.serverStep fun p => p.endpoint.pending[k]?.map fun done =>
      p.post { p.endpoint with pending := p.endpoint.pending.eraseIdx k } (.reply done response)
        (codec.send (Posted.reply done response).message)
  | .done k response ret => s.serverStep fun p => p.endpoint.pending[k]?.bind fun done =>
      p.advance codec (p.endpoint.doneCallback k done response) ret
  | .client e => s.clientStep fun p => p.loopStep codec s.server.conn.written e
  | .server e => s.serverStep fun p => p.loopStep codec s.client.conn.written e

end RpcOverTcp

end RpcMuduo
