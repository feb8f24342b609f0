import RpcMuduo.RpcChannel
import RpcMuduo.Run

/-!
# One end of a connection

A channel with the threads that call through it, the loop thread that takes its messages, and
the closures that its services hold. The three parts of `CallMethod` are steps of their own, as
any thread may run between them; so are the parts of `onRpcMessage` around a callback.
-/
namespace RpcMuduo
open RpcMeta Run

/-- A call after its id was allocated. -/
structure Call (M : Type*) where
  id : CallId
  args : CallArgs M

/-- A done closure in the hands of a service, with the request that it answers. -/
structure PendingDone (M : Type*) where
  id : CallId
  message : RpcMetaMessage
  target : Dispatch M

/-- Where the loop thread is inside `onRpcMessage`: in the method of a service, past the mutex
with an entry whose response is not `NULL`, or in the done closure of that entry. -/
inductive Frame
  | serving
  | taken (out : OutstandingCall) (message : RpcMetaMessage)
  | finishing (out : OutstandingCall) (message : RpcMetaMessage)
  deriving DecidableEq

/-- `calls`, `received`, `handled` and `answered` are histories. -/
structure Endpoint (M : Type*) where
  channel : RpcChannel M
  started : List (Call M)
  registered : List (Call M)
  frame : Option Frame
  pending : List (PendingDone M)
  sent : List RpcMetaMessage
  log : List Action
  calls : List (Call M)
  received : List RpcMetaMessage
  handled : List (PendingDone M)
  answered : List (PendingDone M × M)

namespace Endpoint

/-- `begin`, `register k` and `send k` are the parts of a `CallMethod`, the latter two of the
`k`-th call that has come so far. `resume` lets the loop thread go on in `onRpcMessage`, and
`runDone k` is the service of the `k`-th closure running it. -/
inductive Event (M : Type*)
  | begin (args : CallArgs M)
  | register (k : ℕ)
  | send (k : ℕ)
  | receive (message : RpcMetaMessage)
  | resume
  | runDone (k : ℕ) (response : M)

variable {M : Type*}

def initial (channel : RpcChannel M) : Endpoint M where
  channel := channel
  started := []
  registered := []
  frame := none
  pending := []
  sent := []
  log := []
  calls := []
  received := []
  handled := []
  answered := []

section Steps

variable (s : Endpoint M)

def beginCall (args : CallArgs M) : Endpoint M :=
  let r := s.channel.incrementAndGet
  { s with
    channel := r.1
    started := s.started ++ [⟨r.2, args⟩]
    calls := s.calls ++ [⟨r.2, args⟩] }

def registerCall (k : ℕ) (call : Call M) : Endpoint M :=
  { s with
    channel := s.channel.registerCall call.id call.args.out
    started := s.started.eraseIdx k
    registered := s.registered ++ [call] }

def sendCall (k : ℕ) (call : Call M) : Endpoint M :=
  { s with
    registered := s.registered.eraseIdx k
    sent := s.sent ++ [RpcChannel.requestMessage call.args call.id] }

/-- The branch of `RESPONSE` up to the test of `out.response`. -/
def onResponse (message : RpcMetaMessage) : Endpoint M :=
  let r := s.channel.takeOutstanding message.id
  { s with
    channel := r.2
    frame := r.1.response.map fun _ => .taken r.1 message }

/-- The branch of `REQUEST` up to the return of the method of the service. -/
def onRequest (message : RpcMetaMessage) : Endpoint M :=
  match s.channel.dispatch message with
  | .ok target =>
    { s with
      pending := s.pending ++ [⟨message.id, message, target⟩]
      handled := s.handled ++ [⟨message.id, message, target⟩]
      frame := some .serving }
  | .error error => { s with sent := s.sent ++ [RpcChannel.errorReply message error] }

def onRpcMessage (message : RpcMetaMessage) : Endpoint M :=
  match message.type with
  | .RESPONSE => { s.onResponse message with received := s.received ++ [message] }
  | .REQUEST => { s.onRequest message with received := s.received ++ [message] }
  | .ERROR => { s with received := s.received ++ [message] }

/-- After a method the error is `NO_ERROR` and nothing is sent; after a closure the response
object is released. -/
def resumeFrame : Frame → Endpoint M
  | .serving => { s with frame := none }
  | .taken out message =>
    { s with
      log := s.log ++ RpcChannel.complete out message
      frame := some (.finishing out message) }
  | .finishing out _ =>
    { s with
      log := s.log ++ (out.response.map Action.release).toList
      frame := none }

def doneCallback (k : ℕ) (p : PendingDone M) (response : M) : Endpoint M :=
  { s with
    pending := s.pending.eraseIdx k
    answered := s.answered ++ [(p, response)]
    sent := s.sent ++ [RpcChannel.doneCallback p.target.method response p.id] }

end Steps

@[grind =] def step (s : Endpoint M) : Event M → Option (Endpoint M)
  | .begin args => some (s.beginCall args)
  | .register k => s.started[k]?.map (s.registerCall k)
  | .send k => s.registered[k]?.map (s.sendCall k)
  | .receive message => if s.frame = none then some (s.onRpcMessage message) else none
  | .resume => s.frame.map s.resumeFrame
  | .runDone k response => s.pending[k]?.map fun p => s.doneCallback k p response

/-- A method whose messages are their own bytes. -/
def echo : MethodDescriptor Bytes where
  service := [69]
  name := [101]
  requestPrototype := ⟨fun bytes => (true, bytes), fun contents => contents⟩
  responsePrototype := ⟨fun bytes => (true, bytes), fun contents => contents⟩

section OnResponse

variable {s : Endpoint M} {message : RpcMetaMessage}

lemma onResponse_missing (h : s.channel.outstandings.lookup message.id = none) :
    s.onResponse message = { s with frame := none } := by
  rw [onResponse, RpcChannel.takeOutstanding_none _ h]
  rfl

/-- The entry with its response and its closure is dropped when the response is `NULL`. -/
lemma onResponse_null {out : OutstandingCall}
    (h : s.channel.outstandings.lookup message.id = some out) (hr : out.response = none) :
    s.onResponse message =
      { s with
        channel := { s.channel with outstandings := s.channel.outstandings.erase message.id }
        frame := none } := by
  simp only [onResponse, RpcChannel.takeOutstanding_some _ h, hr, Option.map_none]

lemma onResponse_found {out : OutstandingCall} {response : ℕ}
    (h : s.channel.outstandings.lookup message.id = some out) (hr : out.response = some response) :
    s.onResponse message =
      { s with
        channel := { s.channel with outstandings := s.channel.outstandings.erase message.id }
        frame := some (.taken out message) } := by
  simp only [onResponse, RpcChannel.takeOutstanding_some _ h, hr, Option.map_some]

end OnResponse

/-- The loop thread goes on when it is inside `onRpcMessage`. -/
def settle (s : Endpoint M) : Endpoint M :=
  match s.frame with
  | none => s
  | some frame => s.resumeFrame frame

/-- The whole of `onRpcMessage`, with no other thread running in between. -/
def process (s : Endpoint M) (message : RpcMetaMessage) : Endpoint M :=
  (s.onRpcMessage message).settle.settle

lemma settle_run (s : Endpoint M) : s.settle = s ∨ step s .resume = some s.settle := by
  unfold settle
  cases hframe : s.frame with
  | none => exact Or.inl rfl
  | some frame => exact Or.inr (by simp [step, hframe])

/-- Processing a message is a run of the endpoint. -/
theorem process_run {s : Endpoint M} {message : RpcMetaMessage} (hframe : s.frame = none) :
    ∃ k, run step s (.receive message :: List.replicate k .resume) =
      some (s.process message) := by
  have hreceive : step s (.receive message) = some (s.onRpcMessage message) := by
    simp [step, hframe]
  have hrun : ∀ k, run step (s.onRpcMessage message) (List.replicate k .resume) =
      some (s.process message) →
      run step s (.receive message :: List.replicate k .resume) = some (s.process message) :=
    fun k hk => run_cons_iff.mpr ⟨_, hreceive, hk⟩
  unfold process
  rcases settle_run (s.onRpcMessage message) with h1 | h1
  · rw [h1]
    rcases settle_run (s.onRpcMessage message) with h2 | h2
    · exact ⟨0, by rw [h2]; exact run_cons_iff.mpr ⟨_, hreceive, rfl⟩⟩
    · exact ⟨1, run_cons_iff.mpr ⟨_, hreceive, run_cons_iff.mpr ⟨_, h2, rfl⟩⟩⟩
  · rcases settle_run (s.onRpcMessage message).settle with h2 | h2
    · rw [h2]
      exact ⟨1, run_cons_iff.mpr ⟨_, hreceive, run_cons_iff.mpr ⟨_, h1, rfl⟩⟩⟩
    · exact ⟨2, run_cons_iff.mpr ⟨_, hreceive, run_cons_iff.mpr ⟨_, h1,
        run_cons_iff.mpr ⟨_, h2, rfl⟩⟩⟩⟩

end Endpoint

end RpcMuduo
