import RpcMuduo.RpcMeta

/-!
# RpcChannel

Both roles of a channel: the calls it has made and waits for, and the services it dispatches
requests to. Response objects and done closures are known by number, `NULL` is `none`, and the
contents of messages are of one type `M`. A message is sent when it is handed to the codec.
-/
namespace RpcMuduo
open RpcMeta

/-- A generated message type. `ParseFromString` overwrites the object also when it fails. -/
structure Prototype (M : Type*) where
  parseFromString : Bytes → Bool × M
  serializeAsString : M → Bytes

/-- `service` is the full name of the service that the method belongs to. -/
structure MethodDescriptor (M : Type*) where
  service : Bytes
  name : Bytes
  requestPrototype : Prototype M
  responsePrototype : Prototype M

structure Service (M : Type*) where
  fullName : Bytes
  methods : List (MethodDescriptor M)

abbrev Services (M : Type*) := AList fun _ : Bytes => Service M

variable {M : Type*}

def Service.findMethodByName (service : Service M) (name : Bytes) :
    Option (MethodDescriptor M) :=
  service.methods.find? fun method => method.name == name

/-- `_services[desc->full_name()] = service`: a later service of the same name replaces. -/
def registerService (services : Services M) (service : Service M) : Services M :=
  services.insert service.fullName service

/-- The table of a server after `registerService` calls in this order. -/
def registerServices (services : List (Service M)) : Services M :=
  services.foldl registerService ∅

/-- The table finds the service that was registered last under a name. -/
theorem lookup_registerServices (services : List (Service M)) (name : Bytes) :
    (registerServices services).lookup name =
      services.reverse.find? fun service => service.fullName == name := by
  induction services using List.reverseRecOn with
  | nil => rfl
  | append_singleton services service ih =>
    have hfold : registerServices (services ++ [service]) =
        (registerServices services).insert service.fullName service := by
      simp [registerServices, registerService]
    rw [hfold, List.reverse_append, List.reverse_singleton, List.singleton_append,
      List.find?_cons]
    by_cases hname : service.fullName = name
    · subst hname
      simp
    · have hne : name ≠ service.fullName := fun h => hname h.symm
      rw [AList.lookup_insert_ne hne, ih, beq_false_of_ne hname]

structure OutstandingCall where
  response : Option ℕ
  done : Option ℕ
  deriving DecidableEq, Repr

structure RpcChannel (M : Type*) where
  id : CallId
  outstandings : AList fun _ : CallId => OutstandingCall
  services : Option (Services M)

/-- What a channel does to the objects of its callers. -/
inductive Action
  | parse (response : ℕ) (bytes : Bytes)
  | run (done : ℕ)
  | release (response : ℕ)
  | deleteResponse (response : ℕ)
  | deleteDone (done : ℕ)
  deriving DecidableEq, Repr

/-- The arguments of `CallMethod`; the controller is not looked at. -/
structure CallArgs (M : Type*) where
  method : MethodDescriptor M
  request : M
  out : OutstandingCall

/-- A request that reached its method: the arguments of `service->CallMethod`. -/
structure Dispatch (M : Type*) where
  service : Service M
  method : MethodDescriptor M
  request : M

namespace RpcChannel

variable (channel : RpcChannel M)

/-- Neither constructor registers a call; the second leaves `_id` as the memory had it. -/
def new (id : CallId) (services : Option (Services M)) : RpcChannel M := ⟨id, ∅, services⟩

def incrementAndGet : RpcChannel M × CallId :=
  ({ channel with id := channel.id + 1 }, channel.id + 1)

def requestMessage (args : CallArgs M) (id : CallId) : RpcMetaMessage where
  type := .REQUEST
  id := id
  service := some args.method.service
  method := some args.method.name
  request := some (args.method.requestPrototype.serializeAsString args.request)
  response := none
  error := none

/-- `_outstandings[id] = out` under the mutex. -/
def registerCall (id : CallId) (out : OutstandingCall) : RpcChannel M :=
  { channel with outstandings := channel.outstandings.insert id out }

/-- The entry of `id` is moved out of the map under the mutex; both pointers stay `NULL` when
there is none. -/
def takeOutstanding (id : CallId) : OutstandingCall × RpcChannel M :=
  match channel.outstandings.lookup id with
  | some out => (out, { channel with outstandings := channel.outstandings.erase id })
  | none => (⟨none, none⟩, channel)

/-- Fill the response object and run the closure; whether the bytes parsed is not looked at. -/
def complete (out : OutstandingCall) (message : RpcMetaMessage) : List Action :=
  match out.response with
  | some response =>
    (message.response.map fun bytes => Action.parse response bytes).toList ++
      (out.done.map Action.run).toList
  | none => []

def dispatch (message : RpcMetaMessage) : Except ErrorCode (Dispatch M) :=
  match channel.services with
  | some services =>
    match services.lookup message.getService with
    | some service =>
      match service.findMethodByName message.getMethod with
      | some method =>
        let parsed := method.requestPrototype.parseFromString message.getRequest
        if parsed.1 then .ok ⟨service, method, parsed.2⟩ else .error .INVALID_REQUEST
      | none => .error .NO_METHOD
    | none => .error .NO_SERVICE
  | none => .error .NO_SERVICE

def errorReply (message : RpcMetaMessage) (error : ErrorCode) : RpcMetaMessage :=
  { RpcMetaMessage.ofId .RESPONSE message.id with error := some error }

/-- The reply that `doneCallback` sends, with the contents of the response object. -/
def doneCallback (method : MethodDescriptor M) (response : M) (id : CallId) : RpcMetaMessage :=
  { RpcMetaMessage.ofId .RESPONSE id with
    response := some (method.responsePrototype.serializeAsString response) }

def deleteCall (out : OutstandingCall) : List Action :=
  (out.response.map Action.deleteResponse).toList ++ (out.done.map Action.deleteDone).toList

/-- The destructor walks the map in the order of its keys. -/
def destroy : List Action :=
  (channel.outstandings.entries.mergeSort fun a b => decide (a.1.toInt ≤ b.1.toInt)).flatMap
    fun entry => deleteCall entry.2

lemma takeOutstanding_some {id : CallId} {out : OutstandingCall}
    (h : channel.outstandings.lookup id = some out) : channel.takeOutstanding id =
      (out, { channel with outstandings := channel.outstandings.erase id }) := by
  rw [takeOutstanding, h]

lemma takeOutstanding_none {id : CallId} (h : channel.outstandings.lookup id = none) :
    channel.takeOutstanding id = (⟨none, none⟩, channel) := by
  rw [takeOutstanding, h]

lemma services_takeOutstanding (id : CallId) :
    (channel.takeOutstanding id).2.services = channel.services := by
  unfold takeOutstanding
  cases channel.outstandings.lookup id <;> rfl

end RpcChannel

end RpcMuduo
