import RpcMuduo.Endpoint

/-!
# What a caller sees of a failed call

The branch of `RESPONSE` reads neither the error of the reply nor the result of the parse. Two
replies are told apart by the contents of the response object alone.
-/
namespace RpcMuduo.Endpoint
open RpcMeta Run

variable {M : Type*}

/-- The caller of one call: the contents of its response object, the contents that its closure
found each time it ran, and the error text of the controller it passed. -/
structure Caller (M : Type*) where
  contents : M
  runs : List M
  failure : Option Bytes

def Caller.see (prototype : Prototype M) (out : OutstandingCall) (c : Caller M) :
    Action → Caller M
  | .parse response bytes =>
    if out.response = some response then
      { c with contents := (prototype.parseFromString bytes).2 }
    else c
  | .run done => if out.done = some done then { c with runs := c.runs ++ [c.contents] } else c
  | .release _ => c
  | .deleteResponse _ => c
  | .deleteDone _ => c

/-- What the caller has observed once the message is processed. The response object is gone by
then, so its contents count only as far as the closure saw them. -/
def observation (prototype : Prototype M) (out : OutstandingCall) (contents : M)
    (failure : Option Bytes) (s : Endpoint M) (message : RpcMetaMessage) :
    List M × Option Bytes :=
  let c := ((s.process message).log.drop s.log.length).foldl (Caller.see prototype out)
    ⟨contents, [], failure⟩
  (c.runs, c.failure)

/-- The reply carries a response that parses completely, and no error. -/
def Successful (prototype : Prototype M) (message : RpcMetaMessage) : Prop :=
  (∃ bytes, message.response = some bytes ∧ (prototype.parseFromString bytes).1 = true) ∧
    ∀ error, message.error = some error → error = .NO_ERROR

/-- The reply carries an error, or a response that does not parse. -/
def Failed (prototype : Prototype M) (message : RpcMetaMessage) : Prop :=
  (∃ error, message.error = some error ∧ error ≠ .NO_ERROR) ∨
    ∃ bytes, message.response = some bytes ∧ (prototype.parseFromString bytes).1 = false

/-- What a reply leaves in a response object with these contents. -/
def filled (prototype : Prototype M) (contents : M) (message : RpcMetaMessage) : M :=
  match message.response with
  | some bytes => (prototype.parseFromString bytes).2
  | none => contents

section Process

variable {s : Endpoint M} {message : RpcMetaMessage}

/-- A reply to an outstanding call logs the completion and the release of its entry. -/
lemma log_process {out : OutstandingCall} (htype : message.type = .RESPONSE)
    (hout : s.channel.outstandings.lookup message.id = some out) :
    (s.process message).log = s.log ++
      (RpcChannel.complete out message ++ (out.response.map Action.release).toList) := by
  cases hr : out.response with
  | none =>
    simp [process, onRpcMessage, htype, onResponse_null hout hr, settle,
      RpcChannel.complete, hr]
  | some response =>
    simp [process, onRpcMessage, htype, onResponse_found hout hr, settle, resumeFrame, hr]

/-- The closure runs once, on what the reply left in the object, when both pointers are given. -/
lemma observation_reply (prototype : Prototype M) {out : OutstandingCall} (contents : M)
    (failure : Option Bytes) (htype : message.type = .RESPONSE)
    (hout : s.channel.outstandings.lookup message.id = some out) :
    observation prototype out contents failure s message =
      (if out.response = none ∨ out.done = none then [] else [filled prototype contents message],
        failure) := by
  simp only [observation, log_process htype hout, List.drop_left]
  cases hr : out.response with
  | none => simp [RpcChannel.complete, hr]
  | some response =>
    cases hd : out.done with
    | none =>
      cases hm : message.response <;> simp [RpcChannel.complete, Caller.see, hr, hd, hm]
    | some done =>
      cases hm : message.response <;>
        simp [RpcChannel.complete, Caller.see, filled, hr, hd, hm]

end Process

/-- A successful and a failed reply to the same outstanding call leave different observations
exactly when the caller gave both a response object and a closure, and the two replies leave
different contents in the object. -/
theorem failed_call_distinguished_iff (prototype : Prototype M) (s : Endpoint M)
    (out : OutstandingCall) (contents : M) (failure : Option Bytes)
    (good bad : RpcMetaMessage)
    (hgood : good.type = .RESPONSE ∧ s.channel.outstandings.lookup good.id = some out)
    (hbad : bad.type = .RESPONSE ∧ bad.id = good.id)
    (_hsuccess : Successful prototype good) (_hfailed : Failed prototype bad) :
    observation prototype out contents failure s good ≠
        observation prototype out contents failure s bad ↔
      out.response ≠ none ∧ out.done ≠ none ∧
        filled prototype contents good ≠ filled prototype contents bad := by
  have hlookup : s.channel.outstandings.lookup bad.id = some out := by
    rw [hbad.2, hgood.2]
  rw [observation_reply prototype contents failure hgood.1 hgood.2,
    observation_reply prototype contents failure hbad.1 hlookup]
  by_cases hnull : out.response = none ∨ out.done = none
  · simp only [hnull, ↓reduceIte, ne_eq, not_true_eq_false, false_iff]
    tauto
  · simp only [hnull, ↓reduceIte, ne_eq, Prod.mk.injEq, List.cons.injEq, and_true]
    tauto

/-- A client after one call, with the response object 0 and the closure 10. -/
def calledOnce : Endpoint Bytes :=
  let s := (initial (RpcChannel.new 0 none)).beginCall ⟨echo, [], ⟨some 0, some 10⟩⟩
  (s.registerCall 0 ⟨1, ⟨echo, [], ⟨some 0, some 10⟩⟩⟩).sendCall 0
    ⟨1, ⟨echo, [], ⟨some 0, some 10⟩⟩⟩

theorem failed_call_distinguished_iff_calledOnce :
    observation echo.responsePrototype ⟨some 0, some 10⟩ [] none calledOnce
        { RpcMetaMessage.ofId .RESPONSE 1 with response := some [7] } ≠
      observation echo.responsePrototype ⟨some 0, some 10⟩ [] none calledOnce
        { RpcMetaMessage.ofId .RESPONSE 1 with error := some .NO_METHOD } :=
  (failed_call_distinguished_iff echo.responsePrototype calledOnce ⟨some 0, some 10⟩ [] none
    { RpcMetaMessage.ofId .RESPONSE 1 with response := some [7] }
    { RpcMetaMessage.ofId .RESPONSE 1 with error := some .NO_METHOD }
    ⟨rfl, rfl⟩ ⟨rfl, rfl⟩ ⟨⟨[7], rfl, rfl⟩, by simp [RpcMetaMessage.ofId]⟩
    (Or.inl ⟨.NO_METHOD, rfl, by decide⟩)).mpr ⟨by decide, by decide, by decide⟩

/-- An empty response and the reply to an unknown method, from the same reachable state: the
closure runs on an empty response object in both, and the controller is as it was. -/
theorem failed_call_seen_as_successful :
    run step (initial (RpcChannel.new 0 none))
        [.begin ⟨echo, [], ⟨some 0, some 10⟩⟩, .register 0, .send 0] = some calledOnce ∧
      Successful echo.responsePrototype
        { RpcMetaMessage.ofId .RESPONSE 1 with response := some [] } ∧
      Failed echo.responsePrototype
        { RpcMetaMessage.ofId .RESPONSE 1 with error := some .NO_METHOD } ∧
      observation echo.responsePrototype ⟨some 0, some 10⟩ [] none calledOnce
          { RpcMetaMessage.ofId .RESPONSE 1 with response := some [] } =
        observation echo.responsePrototype ⟨some 0, some 10⟩ [] none calledOnce
          { RpcMetaMessage.ofId .RESPONSE 1 with error := some .NO_METHOD } :=
  ⟨rfl, ⟨⟨[], rfl, rfl⟩, by simp [RpcMetaMessage.ofId]⟩, Or.inl ⟨.NO_METHOD, rfl, by decide⟩,
    rfl⟩

end RpcMuduo.Endpoint
