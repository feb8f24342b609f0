import RpcMuduo.RpcConnection
import RpcMuduo.Simulation

/-!
# The benchmark of calls in a row

The client and the server of `qpstest` on one connection. The client calls `Echo` once connected
and again from inside the closure of the last call, until so many are solved; it has one thread,
so that the parts of a call run in one go. The service runs its closure before it returns.
-/
namespace RpcMuduo
open RpcMeta Run

namespace QpsTest

/-- Where `loopSendRpcRequest` is: before one of the parts of its call. -/
inductive CallPart
  | begin
  | register
  | send
  deriving DecidableEq

end QpsTest

open QpsTest in
/-- `count` is `_count`. The payload is all that a request or a response holds. -/
structure QpsTest where
  conn : RpcConnection Bytes
  connected : Bool
  loopSend : Option CallPart
  count : ℕ

namespace QpsTest

def kRequests : ℕ := 50000

/-- "001010" -/
def payload : Bytes := [48, 48, 49, 48, 49, 48]

inductive Event
  | onConnection
  | call
  | serverReceive
  | echo
  | serverResume
  | clientReceive
  | clientResume
  deriving DecidableEq

section Machine

variable (method : MethodDescriptor Bytes) (requests : ℕ)

/-- The response object and the closure of the `i`-th call have number `i`. -/
def callArgs (i : ℕ) : CallArgs Bytes := ⟨method, payload, ⟨some i, some i⟩⟩

def echoService : Service Bytes := ⟨method.service, [method]⟩

def initial (clientId serverId : CallId) : QpsTest :=
  ⟨RpcConnection.initial clientId serverId [echoService method], false, none, 0⟩

/-- `solved`, where the step of the loop thread ran the closure. -/
def solved (s : QpsTest) (frame : Option Frame) : QpsTest :=
  match frame with
  | some (.taken ⟨_, some _⟩ _) =>
    { s with
      count := s.count + 1
      loopSend := if s.count + 1 < requests then some .begin else none }
  | _ => s

@[grind =] def step (s : QpsTest) : Event → Option QpsTest
  | .onConnection =>
    if s.connected then none else some { s with connected := true, loopSend := some .begin }
  | .call =>
    match s.loopSend with
    | none => none
    | some .begin =>
      (RpcConnection.step s.conn (.begin (callArgs method s.conn.client.calls.length))).map
        fun conn => { s with conn := conn, loopSend := some .register }
    | some .register =>
      (RpcConnection.step s.conn (.register 0)).map
        fun conn => { s with conn := conn, loopSend := some .send }
    | some .send =>
      (RpcConnection.step s.conn (.send 0)).map
        fun conn => { s with conn := conn, loopSend := none }
  | .serverReceive =>
    (RpcConnection.step s.conn .serverReceive).map fun conn => { s with conn := conn }
  | .echo =>
    -- `response->set_payload(request->payload())` and `done->Run()`
    s.conn.server.pending.head?.bind fun p =>
      (RpcConnection.step s.conn (.runDone 0 p.target.request)).map
        fun conn => { s with conn := conn }
  | .serverResume =>
    if s.conn.server.pending = [] then
      (RpcConnection.step s.conn .serverResume).map fun conn => { s with conn := conn }
    else none
  | .clientReceive =>
    if s.loopSend = none then
      (RpcConnection.step s.conn .clientReceive).map fun conn => { s with conn := conn }
    else none
  | .clientResume =>
    if s.loopSend = none then
      (RpcConnection.step s.conn .clientResume).map
        fun conn => solved requests { s with conn := conn } s.conn.client.frame
    else none

end Machine

/-- How far the call at hand has come. -/
inductive Stage
  | unconnected
  | begin
  | register
  | send
  | request
  | serving
  | reply
  | taken
  | finished
  deriving DecidableEq

/-- The benchmark as a whole: so many calls are solved, the next one is at some stage; the loop
thread of the client has yet to return from the last closure, and that of the server from the
last method. -/
structure Position where
  solved : ℕ
  stage : Stage
  releasing : Bool
  returning : Bool
  deriving DecidableEq

namespace Position

def initial : Position := ⟨0, .unconnected, false, false⟩

@[grind =] def step (requests : ℕ) (p : Position) : Event → Option Position
  | .onConnection => if p.stage = .unconnected then some { p with stage := .begin } else none
  | .call =>
    match p.stage with
    | .begin => some { p with stage := .register }
    | .register => some { p with stage := .send }
    | .send => some { p with stage := .request }
    | _ => none
  | .serverReceive =>
    if p.stage = .request ∧ p.returning = false then some { p with stage := .serving } else none
  | .echo =>
    if p.stage = .serving then some { p with stage := .reply, returning := true } else none
  | .serverResume =>
    if p.stage ≠ .serving ∧ p.returning = true then some { p with returning := false } else none
  | .clientReceive =>
    if p.stage = .reply ∧ p.releasing = false then some { p with stage := .taken } else none
  | .clientResume =>
    match p.stage with
    | .begin | .register | .send => none
    | .taken =>
      some
        { p with
          solved := p.solved + 1
          stage := if p.solved + 1 < requests then .begin else .finished
          releasing := true }
    | _ => if p.releasing then some { p with releasing := false } else none

end Position

/-- The parts of a call are passed in this order. -/
@[grind =] def Stage.rank : Stage → ℕ
  | .unconnected | .finished => 0
  | .begin => 1
  | .register => 2
  | .send => 3
  | .request => 4
  | .serving => 5
  | .reply => 6
  | .taken => 7

/-- The calls that have come beyond a stage. -/
def Position.past (p : Position) (stage : Stage) : ℕ :=
  if stage.rank < p.stage.rank then p.solved + 1 else p.solved

section Config

variable (method : MethodDescriptor Bytes) (clientId serverId : CallId)

def callId (i : ℕ) : CallId := clientId + BitVec.ofNat 64 (i + 1)

def theCall (i : ℕ) : Call Bytes := ⟨callId clientId i, callArgs method i⟩

def request (i : ℕ) : RpcMetaMessage :=
  RpcChannel.requestMessage (callArgs method i) (callId clientId i)

def reply (i : ℕ) : RpcMetaMessage :=
  RpcChannel.doneCallback method payload (callId clientId i)

def pendingDone (i : ℕ) : PendingDone Bytes :=
  ⟨callId clientId i, request method clientId i, ⟨echoService method, method, payload⟩⟩

/-- What is done with the objects of a call until its closure has run. -/
def closed (i : ℕ) : List Action :=
  [.parse i (method.responsePrototype.serializeAsString payload), .run i]

/-- The client in a position. -/
def client (p : Position) : Endpoint Bytes where
  channel :=
    { id := clientId + BitVec.ofNat 64 (p.past .begin)
      outstandings :=
        if Stage.register.rank < p.stage.rank ∧ p.stage.rank < Stage.taken.rank then
          AList.singleton (callId clientId p.solved) ⟨some p.solved, some p.solved⟩
        else ∅
      services := none }
  started := if p.stage = .register then [theCall method clientId p.solved] else []
  registered := if p.stage = .send then [theCall method clientId p.solved] else []
  frame :=
    if p.stage = .taken then
      some (.taken ⟨some p.solved, some p.solved⟩ (reply method clientId p.solved))
    else if p.releasing then
      some (.finishing ⟨some (p.solved - 1), some (p.solved - 1)⟩
        (reply method clientId (p.solved - 1)))
    else none
  pending := []
  sent := (List.range (p.past .send)).map (request method clientId)
  log :=
    if p.releasing then
      (List.range (p.solved - 1)).flatMap (fun i => closed method i ++ [.release i]) ++
        closed method (p.solved - 1)
    else (List.range p.solved).flatMap fun i => closed method i ++ [.release i]
  calls := (List.range (p.past .begin)).map (theCall method clientId)
  received := (List.range (p.past .reply)).map (reply method clientId)
  handled := []
  answered := []

/-- The server in a position. -/
def server (p : Position) : Endpoint Bytes where
  channel := RpcChannel.new serverId (some (registerServices [echoService method]))
  started := []
  registered := []
  frame := if p.stage = .serving ∨ p.returning = true then some .serving else none
  pending := if p.stage = .serving then [pendingDone method clientId p.solved] else []
  sent := (List.range (p.past .serving)).map (reply method clientId)
  log := []
  calls := []
  received := (List.range (p.past .request)).map (request method clientId)
  handled := (List.range (p.past .request)).map (pendingDone method clientId)
  answered := (List.range (p.past .serving)).map fun i => (pendingDone method clientId i, payload)

def config (p : Position) : QpsTest where
  conn := ⟨client method clientId p, server method clientId serverId p⟩
  connected := decide (p.stage ≠ .unconnected)
  loopSend :=
    match p.stage with
    | .begin => some .begin
    | .register => some .register
    | .send => some .send
    | _ => none
  count := p.solved

/-- What holds of the positions that are reached. -/
structure Valid (requests : ℕ) (p : Position) : Prop where
  releasing : p.releasing = true → 0 < p.solved ∧ p.stage ≠ .taken
  unconnected : p.stage = .unconnected →
    p.solved = 0 ∧ p.releasing = false ∧ p.returning = false
  serving : p.stage = .serving → p.returning = false
  active : p.stage ≠ .finished → p.solved < requests
  finished : p.stage = .finished → p.solved = requests

variable {method clientId serverId} {requests : ℕ} {p q : Position}

lemma config_onConnection : step method requests (config method clientId serverId p) .onConnection =
    (p.step requests .onConnection).map (config method clientId serverId) := by
  obtain ⟨k, stage, releasing, returning⟩ := p
  cases stage <;> simp [step, config, Position.step, client, server, Position.past, Stage.rank]

lemma config_begin {k : ℕ} {releasing returning : Bool} :
    step method requests (config method clientId serverId ⟨k, .begin, releasing, returning⟩) .call =
      some (config method clientId serverId ⟨k, .register, releasing, returning⟩) := by
  simp [step, config, client, server, Position.past, Stage.rank, RpcConnection.step,
    RpcConnection.clientStep, Endpoint.step, Endpoint.beginCall, RpcChannel.incrementAndGet,
    theCall, callId, List.range_succ]
  exact Endpoint.issue_next clientId k

lemma config_register {k : ℕ} {releasing returning : Bool} :
    step method requests (config method clientId serverId ⟨k, .register, releasing, returning⟩)
        .call =
      some (config method clientId serverId ⟨k, .send, releasing, returning⟩) := by
  simp [step, config, client, server, Position.past, Stage.rank, RpcConnection.step,
    RpcConnection.clientStep, Endpoint.step, Endpoint.registerCall, RpcChannel.registerCall,
    theCall, callArgs]

lemma config_send {k : ℕ} {releasing returning : Bool} :
    step method requests (config method clientId serverId ⟨k, .send, releasing, returning⟩) .call =
      some (config method clientId serverId ⟨k, .request, releasing, returning⟩) := by
  simp [step, config, client, server, Position.past, Stage.rank, RpcConnection.step,
    RpcConnection.clientStep, Endpoint.step, Endpoint.sendCall, theCall, request, List.range_succ]

lemma toServer_config : (config method clientId serverId p).conn.toServer =
    if p.stage = .request then [request method clientId p.solved] else [] := by
  obtain ⟨k, stage, releasing, returning⟩ := p
  cases stage <;> simp [RpcConnection.toServer, config, client, server, Position.past, Stage.rank,
    List.range_succ]

lemma toClient_config : (config method clientId serverId p).conn.toClient =
    if p.stage = .reply then [reply method clientId p.solved] else [] := by
  obtain ⟨k, stage, releasing, returning⟩ := p
  cases stage <;> simp [RpcConnection.toClient, config, client, server, Position.past, Stage.rank,
    List.range_succ]

/-- The server finds the service and the method of a request, and parses the payload. -/
lemma dispatch_request (hparse : method.requestPrototype.parseFromString
      (method.requestPrototype.serializeAsString payload) = (true, payload)) (i : ℕ) :
    (server method clientId serverId p).channel.dispatch (request method clientId i) =
      .ok ⟨echoService method, method, payload⟩ := by
  have hservice : (registerServices [echoService method]).lookup
      (request method clientId i).getService = some (echoService method) := by
    rw [lookup_registerServices]
    simp [request, RpcChannel.requestMessage, callArgs, RpcMetaMessage.getService, echoService]
  have hmethod : (echoService method).findMethodByName (request method clientId i).getMethod =
      some method := by
    simp [request, RpcChannel.requestMessage, callArgs, RpcMetaMessage.getMethod, echoService,
      Service.findMethodByName]
  have hrequest : (request method clientId i).getRequest =
      method.requestPrototype.serializeAsString payload := rfl
  simp only [RpcChannel.dispatch, server, RpcChannel.new, hservice, hmethod, hrequest, hparse,
    if_true]

lemma config_serverReceive (hparse : method.requestPrototype.parseFromString
      (method.requestPrototype.serializeAsString payload) = (true, payload)) :
    step method requests (config method clientId serverId p) .serverReceive =
      (p.step requests .serverReceive).map (config method clientId serverId) := by
  have hreceive : ∀ {k : ℕ} {releasing : Bool},
      (server method clientId serverId ⟨k, .request, releasing, false⟩).onRpcMessage
        (request method clientId k) =
        server method clientId serverId ⟨k, .serving, releasing, false⟩ := by
    intro k releasing
    have hdispatch : (server method clientId serverId
        ⟨k, .request, releasing, false⟩).channel.dispatch (request method clientId k) =
        .ok ⟨echoService method, method, payload⟩ := dispatch_request hparse k
    have htype : (request method clientId k).type = .REQUEST := rfl
    rw [Endpoint.onRpcMessage, htype]
    simp only [Endpoint.onRequest, hdispatch]
    simp [server, Position.past, Stage.rank, List.range_succ, pendingDone]
    rfl
  obtain ⟨k, stage, releasing, returning⟩ := p
  simp only [step, RpcConnection.step, toServer_config, Position.step]
  by_cases hstage : stage = .request
  · subst hstage
    cases returning with
    | false =>
      have hframe : (server method clientId serverId ⟨k, .request, releasing, false⟩).frame =
          none := rfl
      simp [RpcConnection.serverStep, config, Endpoint.step, hframe, hreceive, client,
        Position.past, Stage.rank]
    | true =>
      have hframe : (server method clientId serverId ⟨k, .request, releasing, true⟩).frame =
          some .serving := rfl
      simp [RpcConnection.serverStep, config, Endpoint.step, hframe]
  · simp [hstage]

lemma config_echo : step method requests (config method clientId serverId p) .echo =
    (p.step requests .echo).map (config method clientId serverId) := by
  obtain ⟨k, stage, releasing, returning⟩ := p
  cases stage <;> simp [step, config, client, server, Position.step, Position.past, Stage.rank,
    RpcConnection.step, RpcConnection.serverStep, Endpoint.step, Endpoint.doneCallback,
    pendingDone, reply, List.range_succ]

lemma config_serverResume : step method requests (config method clientId serverId p) .serverResume =
    (p.step requests .serverResume).map (config method clientId serverId) := by
  obtain ⟨k, stage, releasing, returning⟩ := p
  cases returning <;> cases stage <;>
    simp [step, config, client, server, Position.step, Position.past, Stage.rank,
      RpcConnection.step, RpcConnection.serverStep, Endpoint.step, Endpoint.resumeFrame]

lemma config_clientReceive :
    step method requests (config method clientId serverId p) .clientReceive =
      (p.step requests .clientReceive).map (config method clientId serverId) := by
  have hreceive : ∀ {k : ℕ} {returning : Bool},
      (client method clientId ⟨k, .reply, false, returning⟩).onRpcMessage
        (reply method clientId k) = client method clientId ⟨k, .taken, false, returning⟩ := by
    intro k returning
    have hlookup : (client method clientId
        ⟨k, .reply, false, returning⟩).channel.outstandings.lookup (reply method clientId k).id =
          some ⟨some k, some k⟩ := List.dlookup_cons_eq ..
    have htype : (reply method clientId k).type = .RESPONSE := rfl
    have herase : (AList.singleton (callId clientId k) (⟨some k, some k⟩ : OutstandingCall)).erase
        (callId clientId k) = (∅ : AList fun _ : CallId => OutstandingCall) := by
      refine AList.ext ?_
      simp [AList.singleton, AList.erase, List.kerase]
    rw [Endpoint.onRpcMessage, htype]
    simp only [Endpoint.onResponse_found hlookup rfl]
    simp [client, Position.past, Stage.rank, List.range_succ, reply, RpcChannel.doneCallback,
      RpcMetaMessage.ofId, herase]
  obtain ⟨k, stage, releasing, returning⟩ := p
  by_cases hstage : stage = .reply
  · subst hstage
    simp only [step, RpcConnection.step, toClient_config, Position.step]
    cases releasing with
    | false =>
      have hframe : (client method clientId ⟨k, .reply, false, returning⟩).frame = none := rfl
      simp [RpcConnection.clientStep, config, Endpoint.step, hframe, hreceive, server,
        Position.past, Stage.rank]
    | true =>
      simp [RpcConnection.clientStep, config, Endpoint.step, client]
  · simp [step, RpcConnection.step, toClient_config, Position.step, hstage]

lemma config_clientResume (h : Valid requests p) :
    step method requests (config method clientId serverId p) .clientResume =
      (p.step requests .clientResume).map (config method clientId serverId) := by
  obtain ⟨k, stage, releasing, returning⟩ := p
  cases stage with
  | begin | register | send => simp [step, config, Position.step]
  | taken =>
    obtain rfl : releasing = false := by
      rw [← Bool.not_eq_true]
      exact fun hreleasing => (h.releasing hreleasing).2 rfl
    have hresume : (client method clientId ⟨k, .taken, false, returning⟩).resumeFrame
          (.taken ⟨some k, some k⟩ (reply method clientId k)) =
        client method clientId
          ⟨k + 1, if k + 1 < requests then .begin else .finished, true, returning⟩ := by
      by_cases hmore : k + 1 < requests <;>
        simp [hmore, Endpoint.resumeFrame, client, Position.past, Stage.rank, RpcChannel.complete,
          reply, RpcChannel.doneCallback, closed]
    have hserver : server method clientId serverId ⟨k, .taken, false, returning⟩ =
        server method clientId serverId
          ⟨k + 1, if k + 1 < requests then .begin else .finished, true, returning⟩ := by
      by_cases hmore : k + 1 < requests <;> simp [hmore, server, Position.past, Stage.rank]
    have hframe : (client method clientId ⟨k, .taken, false, returning⟩).frame =
        some (.taken ⟨some k, some k⟩ (reply method clientId k)) := rfl
    by_cases hmore : k + 1 < requests
    · rw [if_pos hmore] at hresume hserver
      simp [step, RpcConnection.step, RpcConnection.clientStep, Endpoint.step, config, hmore,
        Position.step, solved, hframe, hresume, hserver]
    · rw [if_neg hmore] at hresume hserver
      simp [step, RpcConnection.step, RpcConnection.clientStep, Endpoint.step, config, hmore,
        Position.step, solved, hframe, hresume, hserver]
  | _ =>
    cases releasing with
    | false =>
      simp [step, config, Position.step, RpcConnection.step, RpcConnection.clientStep,
        Endpoint.step, client]
    | true =>
      obtain ⟨j, rfl⟩ := Nat.exists_eq_add_one.mpr (h.releasing rfl).1
      simp [step, config, Position.step, RpcConnection.step, RpcConnection.clientStep,
        Endpoint.step, Endpoint.resumeFrame, client, server, solved, List.range_succ, closed,
        Position.past]

/-- The machine is the benchmark as a whole, seen at the two ends of the connection. -/
lemma step_config (hparse : method.requestPrototype.parseFromString
      (method.requestPrototype.serializeAsString payload) = (true, payload))
    (h : Valid requests p) (e : Event) :
    step method requests (config method clientId serverId p) e =
      (p.step requests e).map (config method clientId serverId) := by
  cases e with
  | onConnection => exact config_onConnection
  | call =>
    obtain ⟨k, stage, releasing, returning⟩ := p
    cases stage with
    | begin => exact config_begin
    | register => exact config_register
    | send => exact config_send
    | _ => rfl
  | serverReceive => exact config_serverReceive hparse
  | echo => exact config_echo
  | serverResume => exact config_serverResume
  | clientReceive => exact config_clientReceive
  | clientResume => exact config_clientResume h

lemma config_initial : config method clientId serverId Position.initial =
    initial method clientId serverId := by
  simp [config, initial, Position.initial, client, server, Position.past, Stage.rank,
    RpcConnection.initial, Endpoint.initial, RpcChannel.new]

end Config

/-- The steps of a call that are behind a stage. -/
def Stage.steps : Stage → ℕ
  | .unconnected | .begin | .finished => 0
  | .register => 1
  | .send => 2
  | .request => 3
  | .serving => 4
  | .reply => 6
  | .taken => 7

namespace Position

/-- The steps that are left. -/
def left (requests : ℕ) (p : Position) : ℕ :=
  (if p.stage = .unconnected then 1 else 0) +
    (9 * (requests - p.solved) - p.stage.steps) + p.releasing.toNat + p.returning.toNat

section Position

variable {requests : ℕ} {p q : Position} {e : Event}

lemma valid_initial (hpos : 0 < requests) : Valid requests initial := by
  refine ⟨?_, ?_, ?_, ?_, ?_⟩ <;> simp [initial, hpos]

/-- Every step is one of those that are left. -/
lemma step_left (h : Valid requests p) (hstep : p.step requests e = some q) :
    Valid requests q ∧ q.left requests + 1 = p.left requests := by
  obtain ⟨k, stage, releasing, returning⟩ := p
  obtain ⟨hreleasing, hunconnected, hserving, hactive, hfinished⟩ := h
  cases e with
  | onConnection =>
    simp only [step, Option.ite_none_right_eq_some, Option.some.injEq] at hstep
    obtain ⟨rfl, rfl⟩ := hstep
    obtain ⟨rfl, rfl, rfl⟩ := hunconnected rfl
    refine ⟨⟨by simp, by simp, by simp, fun _ => hactive (by simp), by simp⟩, ?_⟩
    simp [left, Stage.steps]
    omega
  | call =>
    cases stage with
    | begin | register | send =>
      obtain rfl := Option.some.inj hstep
      have hmore := hactive (by simp)
      refine ⟨⟨?_, by simp, by simp, fun _ => hmore, by simp⟩, ?_⟩
      · exact fun hr => ⟨(hreleasing hr).1, by simp⟩
      · simp only [left, Stage.steps, reduceCtorEq, if_false]
        simp only at hmore
        omega
    | _ => cases hstep
  | serverReceive =>
    simp only [step, Option.ite_none_right_eq_some, Option.some.injEq] at hstep
    obtain ⟨⟨rfl, rfl⟩, rfl⟩ := hstep
    have hmore := hactive (by simp)
    refine ⟨⟨?_, by simp, by simp, fun _ => hmore, by simp⟩, ?_⟩
    · exact fun hr => ⟨(hreleasing hr).1, by simp⟩
    · simp only [left, Stage.steps, reduceCtorEq, if_false]
      simp only at hmore
      omega
  | echo =>
    simp only [step, Option.ite_none_right_eq_some, Option.some.injEq] at hstep
    obtain ⟨rfl, rfl⟩ := hstep
    have hmore := hactive (by simp)
    obtain rfl := hserving rfl
    refine ⟨⟨?_, by simp, by simp, fun _ => hmore, by simp⟩, ?_⟩
    · exact fun hr => ⟨(hreleasing hr).1, by simp⟩
    · simp only [left, Stage.steps, reduceCtorEq, if_false, Bool.toNat_true, Bool.toNat_false]
      simp only at hmore
      omega
  | serverResume =>
    simp only [step, Option.ite_none_right_eq_some, Option.some.injEq] at hstep
    obtain ⟨⟨-, rfl⟩, rfl⟩ := hstep
    refine ⟨⟨hreleasing, ?_, fun _ => rfl, hactive, hfinished⟩, ?_⟩
    · intro hstage
      cases (hunconnected hstage).2.2
    · simp only [left, Bool.toNat_true, Bool.toNat_false]
  | clientReceive =>
    simp only [step, Option.ite_none_right_eq_some, Option.some.injEq] at hstep
    obtain ⟨⟨rfl, rfl⟩, rfl⟩ := hstep
    have hmore := hactive (by simp)
    refine ⟨⟨by simp, by simp, by simp, fun _ => hmore, by simp⟩, ?_⟩
    simp only [left, Stage.steps, reduceCtorEq, if_false]
    simp only at hmore
    omega
  | clientResume =>
    by_cases htaken : stage = .taken
    · subst htaken
      obtain rfl := Option.some.inj hstep
      have hmore := hactive (by simp)
      have hnot : releasing = false := by
        rw [← Bool.not_eq_true]
        exact fun hr => (hreleasing hr).2 rfl
      simp only at hmore
      subst hnot
      by_cases hnext : k + 1 < requests
      · simp only [hnext, if_true]
        refine ⟨⟨by simp, by simp, by simp, fun _ => hnext, by simp⟩, ?_⟩
        simp only [left, Stage.steps, reduceCtorEq, if_false, Bool.toNat_true, Bool.toNat_false]
        omega
      · simp only [hnext, if_false]
        refine ⟨⟨by simp, by simp, by simp, by simp, fun _ => by simp only; omega⟩, ?_⟩
        simp only [left, Stage.steps, reduceCtorEq, if_false, Bool.toNat_true, Bool.toNat_false]
        omega
    · have hcases : releasing = true ∧ q = ⟨k, stage, false, returning⟩ := by
        cases stage <;> simp_all [step]
      obtain ⟨rfl, rfl⟩ := hcases
      refine ⟨⟨by simp, ?_, hserving, hactive, hfinished⟩, ?_⟩
      · intro hstage
        cases (hunconnected hstage).2.1
      · simp only [left, Bool.toNat_true, Bool.toNat_false]
        omega

/-- As long as steps are left one of them can be taken. -/
lemma exists_step (h : Valid requests p) (hleft : 0 < p.left requests) :
    ∃ e q, p.step requests e = some q := by
  obtain ⟨k, stage, releasing, returning⟩ := p
  cases stage with
  | unconnected => exact ⟨.onConnection, _, rfl⟩
  | begin | register | send => exact ⟨.call, _, rfl⟩
  | request =>
    cases returning with
    | false => exact ⟨.serverReceive, _, rfl⟩
    | true => exact ⟨.serverResume, _, rfl⟩
  | serving => exact ⟨.echo, _, rfl⟩
  | reply =>
    cases releasing with
    | false => exact ⟨.clientReceive, _, rfl⟩
    | true => exact ⟨.clientResume, _, rfl⟩
  | taken => exact ⟨.clientResume, _, rfl⟩
  | finished =>
    cases releasing with
    | true => exact ⟨.clientResume, _, rfl⟩
    | false =>
      cases returning with
      | true => exact ⟨.serverResume, _, rfl⟩
      | false =>
        have hall : k = requests := h.finished rfl
        simp [left, Stage.steps, hall] at hleft

/-- Where no step is left all calls are solved and both loop threads have returned. -/
lemma eq_of_left_eq_zero (h : Valid requests p) (hleft : p.left requests = 0) :
    p = ⟨requests, .finished, false, false⟩ := by
  obtain ⟨k, stage, releasing, returning⟩ := p
  have hfinished : stage = .finished := by
    by_contra hne
    have hmore : k < requests := h.active hne
    cases stage <;> simp only [left, Stage.steps, reduceCtorEq, if_false, if_true] at hleft hne <;>
      omega
  subst hfinished
  obtain rfl : k = requests := h.finished rfl
  simp only [left, Stage.steps, reduceCtorEq, if_false] at hleft
  have hflags : releasing.toNat = 0 ∧ returning.toNat = 0 := by omega
  simp only [Bool.toNat_eq_zero] at hflags
  rw [hflags.1, hflags.2]

lemma run_left {es : List Event} (h : Valid requests p)
    (hrun : run (Position.step requests) p es = some q) :
    Valid requests q ∧ es.length + q.left requests = p.left requests := by
  induction es generalizing p with
  | nil =>
    simp only [run_nil, Option.some.injEq] at hrun
    subst hrun
    exact ⟨h, by simp⟩
  | cons e es ih =>
    obtain ⟨r, hr, hrun⟩ := run_cons_iff.mp hrun
    obtain ⟨hvalid, hone⟩ := step_left h hr
    obtain ⟨hq, hrest⟩ := ih hvalid hrun
    refine ⟨hq, ?_⟩
    rw [List.length_cons]
    omega

end Position

end Position

/-- Every run of the benchmark can be continued until it has made `9 * requests + 1` steps, and
no further, in whatever order the two processes take them. There `requests` calls have been made
and solved, one at a time and in order: into the response object of each the reply of the service
was parsed, its closure was run once, and the object was released. -/
theorem benchmark_completes (method : MethodDescriptor Bytes) (clientId serverId : CallId)
    {requests : ℕ} (hpos : 0 < requests)
    (hparse : method.requestPrototype.parseFromString
      (method.requestPrototype.serializeAsString payload) = (true, payload))
    {es : List Event} {s : QpsTest}
    (hrun : run (step method requests) (initial method clientId serverId) es = some s) :
    es.length ≤ 9 * requests + 1 ∧ s.conn.client.calls.length ≤ s.count + 1 ∧
    (es.length < 9 * requests + 1 → ∃ e t, step method requests s e = some t) ∧
    (es.length = 9 * requests + 1 →
      s.count = requests ∧ s.conn.client.calls.length = requests ∧
        s.conn.client.log = (List.range requests).flatMap fun i =>
          [.parse i (method.responsePrototype.serializeAsString payload), .run i, .release i]) := by
  have hmap := run_map (f := config method clientId serverId)
    (fun p e h => step_config hparse h e) (fun p e q h hstep => (Position.step_left h hstep).1)
    (Position.valid_initial hpos) es
  rw [config_initial, hrun] at hmap
  obtain ⟨p, hp, rfl⟩ := Option.map_eq_some_iff.mp hmap.symm
  obtain ⟨hvalid, hsteps⟩ := Position.run_left (Position.valid_initial hpos) hp
  have hall : Position.initial.left requests = 9 * requests + 1 := by
    simp [Position.left, Position.initial, Stage.steps]
    omega
  rw [hall] at hsteps
  refine ⟨by omega, ?_, ?_, ?_⟩
  · have hpast : p.past .begin ≤ p.solved + 1 := by
      unfold Position.past
      split <;> omega
    simpa [config, client] using hpast
  · intro hless
    obtain ⟨e, q, hq⟩ := Position.exists_step hvalid (by omega)
    exact ⟨e, _, by rw [step_config hparse hvalid, hq, Option.map_some]⟩
  · intro hend
    obtain rfl := Position.eq_of_left_eq_zero hvalid (by omega)
    refine ⟨rfl, ?_, ?_⟩
    · simp [config, client, Position.past, Stage.rank]
    · simp [config, client, closed]

/-- The first call is solved and the second is on its way while the loop thread has yet to return
from the closure of the first. -/
theorem benchmark_completes_kRequests : ∃ s, run (step Endpoint.echo kRequests)
      (initial Endpoint.echo 0 7)
      [.onConnection, .call, .call, .call, .serverReceive, .echo, .clientReceive, .clientResume,
        .call, .call, .call] = some s ∧
    s.count = 1 ∧ s.conn.client.calls.length ≤ 2 ∧
      ∃ e t, step Endpoint.echo kRequests s e = some t := by
  obtain ⟨s, hs, hcount⟩ := Option.map_eq_some_iff.mp (show (run (step Endpoint.echo kRequests)
    (initial Endpoint.echo 0 7)
    [.onConnection, .call, .call, .call, .serverReceive, .echo, .clientReceive, .clientResume,
      .call, .call, .call]).map QpsTest.count = some 1 by rfl)
  obtain ⟨-, hone, hgoes, -⟩ := benchmark_completes Endpoint.echo 0 7 (by decide) rfl hs
  rw [hcount] at hone
  exact ⟨s, hs, hcount, hone, hgoes (by decide)⟩

end QpsTest

end RpcMuduo
