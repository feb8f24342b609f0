import RpcMuduo.Buffer

/-!
# RpcMeta

The messages of `RpcMeta.proto`. A `string` field is a byte string: the runtime accepts any
bytes there. `int64_t` and `fixed64` ids share their 64 bits.
-/
namespace RpcMuduo

abbrev CallId := BitVec 64

namespace RpcMeta

inductive MessageType
  | REQUEST
  | RESPONSE
  | ERROR
  deriving DecidableEq, Repr

inductive ErrorCode
  | NO_ERROR
  | WRONG_PROTO
  | NO_SERVICE
  | NO_METHOD
  | INVALID_REQUEST
  | INVALID_RESPONSE
  | TIMEOUT
  deriving DecidableEq, Repr

/-- `type` and `id` are required fields, the others optional. -/
structure RpcMetaMessage where
  type : MessageType
  id : CallId
  service : Option Bytes
  method : Option Bytes
  request : Option Bytes
  response : Option Bytes
  error : Option ErrorCode
  deriving DecidableEq, Repr

namespace RpcMetaMessage

/-- A message with its required fields only. -/
def ofId (type : MessageType) (id : CallId) : RpcMetaMessage :=
  ⟨type, id, none, none, none, none, none⟩

/-- The accessors of absent fields return the default, the empty string. -/
def getService (m : RpcMetaMessage) : Bytes := m.service.getD []

def getMethod (m : RpcMetaMessage) : Bytes := m.method.getD []

def getRequest (m : RpcMetaMessage) : Bytes := m.request.getD []

end RpcMetaMessage

/-- The protobuf runtime for `RpcMetaMessage`: `SerializeWithCachedSizesToArray`, and
`ParseFromArray` with `none` for a failed parse. -/
structure Runtime where
  serialize : RpcMetaMessage → Bytes
  parseFromArray : Bytes → Option RpcMetaMessage

/-- The request of the codec test, which names no service, and the reply that it gets. -/
def testMessage : RpcMetaMessage := .ofId .REQUEST 2

def testReply : RpcMetaMessage :=
  { RpcMetaMessage.ofId .RESPONSE 2 with error := some .NO_SERVICE }

/-- The runtime on these two messages, with their wire formats. -/
def testRuntime : Runtime where
  serialize message :=
    if message = testReply then [8, 2, 17, 2, 0, 0, 0, 0, 0, 0, 0, 56, 2]
    else [8, 1, 17, 2, 0, 0, 0, 0, 0, 0, 0]
  parseFromArray bytes :=
    if bytes = [8, 1, 17, 2, 0, 0, 0, 0, 0, 0, 0] then some testMessage else none

end RpcMeta

end RpcMuduo
