import RpcMuduo.CInt
import RpcMuduo.RpcMeta
import RpcMuduo.WireFormat

/-!
# RpcMeta.pb

The code generated for `RpcMetaMessage`. A field whose has-bit is clear is `none`, and what a peer
sends beyond the fields known here is kept with the message.
-/
namespace RpcMuduo.RpcMetaPb
open CInt Readers RpcMeta

/-- `MessageType_IsValid`, with the type that the value then stands for. -/
def MessageType_ofInt (value : ℤ) : Option MessageType :=
  match value with
  | 1 => some .REQUEST
  | 2 => some .RESPONSE
  | 3 => some .ERROR
  | _ => none

def MessageType_value : MessageType → ℕ
  | .REQUEST => 1
  | .RESPONSE => 2
  | .ERROR => 3

def ErrorCode_ofInt (value : ℤ) : Option ErrorCode :=
  match value with
  | 0 => some .NO_ERROR
  | 1 => some .WRONG_PROTO
  | 2 => some .NO_SERVICE
  | 3 => some .NO_METHOD
  | 4 => some .INVALID_REQUEST
  | 5 => some .INVALID_RESPONSE
  | 6 => some .TIMEOUT
  | _ => none

def ErrorCode_value : ErrorCode → ℕ
  | .NO_ERROR => 0
  | .WRONG_PROTO => 1
  | .NO_SERVICE => 2
  | .NO_METHOD => 3
  | .INVALID_REQUEST => 4
  | .INVALID_RESPONSE => 5
  | .TIMEOUT => 6

structure RpcMetaMessage (υ : Type) where
  type : Option MessageType
  id : Option CallId
  service : Option Bytes
  method : Option Bytes
  request : Option Bytes
  response : Option Bytes
  error : Option ErrorCode
  unknownFields : List υ
  deriving DecidableEq

variable {υ : Type}

namespace RpcMetaMessage

/-- A message after its constructor or `Clear`. -/
def new : RpcMetaMessage υ := ⟨none, none, none, none, none, none, none, []⟩

def isInitialized (m : RpcMetaMessage υ) : Bool := m.id.isSome && m.type.isSome

/-- Fields that are set in `source` replace those of the message. -/
def mergeFrom (m source : RpcMetaMessage υ) : RpcMetaMessage υ where
  type := source.type.or m.type
  id := source.id.or m.id
  service := source.service.or m.service
  method := source.method.or m.method
  request := source.request.or m.request
  response := source.response.or m.response
  error := source.error.or m.error
  unknownFields := m.unknownFields ++ source.unknownFields

def addUnknownField (m : RpcMetaMessage υ) (u : υ) : RpcMetaMessage υ :=
  { m with unknownFields := m.unknownFields ++ [u] }

section Parse

variable (w : WireFormat υ) (m : RpcMetaMessage υ)

/-- A value that is no enumerator goes to the unknown fields. -/
def parseType (val : ℕ) : RpcMetaMessage υ :=
  (MessageType_ofInt (toInt32 val)).elim (m.addUnknownField (w.addVarint 1 val))
    fun type => { m with type := some type }

def parseError (val : ℕ) : RpcMetaMessage υ :=
  (ErrorCode_ofInt (toInt32 val)).elim (m.addUnknownField (w.addVarint 7 val))
    fun error => { m with error := some error }

/-- The tag 0 and the end of a group leave the loop; as this message is no group, its parse then
counts as failed. -/
def handleUnusual (tag : ℕ) : Reader UInt8 (RpcMetaMessage υ) :=
  if tag = 0 ∨ tag % 8 = 4 then fun _ => none
  else map m.addUnknownField (w.unknownFieldParse tag)

/-- The `switch` of `_InternalParse`. -/
@[grind =] def parseField (tag : ℕ) : Reader UInt8 (RpcMetaMessage υ) :=
  match tag / 8 with
  | 1 =>
    if tag % 256 = 8 then map (m.parseType w) w.readVarint64 else m.handleUnusual w tag
  | 2 =>
    if tag % 256 = 17 then map (fun id => { m with id := some id }) w.readFixed64
    else m.handleUnusual w tag
  | 3 =>
    if tag % 256 = 26 then map (fun str => { m with service := some str }) w.readString
    else m.handleUnusual w tag
  | 4 =>
    if tag % 256 = 34 then map (fun str => { m with method := some str }) w.readString
    else m.handleUnusual w tag
  | 5 =>
    if tag % 256 = 42 then map (fun str => { m with request := some str }) w.readString
    else m.handleUnusual w tag
  | 6 =>
    if tag % 256 = 50 then map (fun str => { m with response := some str }) w.readString
    else m.handleUnusual w tag
  | 7 =>
    if tag % 256 = 56 then map (m.parseError w) w.readVarint64 else m.handleUnusual w tag
  | _ => m.handleUnusual w tag

def parseTurn : Reader UInt8 (RpcMetaMessage υ) := andThen w.readTag (m.parseField w)

/-- The loop of `_InternalParse` to the end of the input. -/
def internalParse (bytes : Bytes) : Option (RpcMetaMessage υ) :=
  exhaust (fun m => m.parseTurn w) m bytes

/-- `ParseFromArray` of the runtime: clear, parse, and test the required fields. -/
def parseFromArray (bytes : Bytes) : Option (RpcMetaMessage υ) :=
  (internalParse w new bytes).filter isInitialized

end Parse

section Serialize

variable (w : WireFormat υ) (m : RpcMetaMessage υ)

def internalSerialize : Bytes :=
  (m.type.map fun type => w.writeEnumToArray 1 (MessageType_value type)).getD [] ++
  (m.id.map fun id => w.writeFixed64ToArray 2 id).getD [] ++
  (m.service.map fun str => w.writeString 3 str).getD [] ++
  (m.method.map fun str => w.writeString 4 str).getD [] ++
  (m.request.map fun str => w.writeString 5 str).getD [] ++
  (m.response.map fun str => w.writeString 6 str).getD [] ++
  (m.error.map fun error => w.writeEnumToArray 7 (ErrorCode_value error)).getD [] ++
  m.unknownFields.flatMap w.serializeUnknownField

def requiredFieldsByteSizeFallback : ℕ :=
  (if m.id.isSome then 1 + 8 else 0) +
  (m.type.map fun type => 1 + w.enumSize (MessageType_value type)).getD 0

/-- `_internal_type()` reads 1 while the field is not set. -/
def byteSizeLong : ℕ :=
  (if m.isInitialized then 1 + 8 + (1 + w.enumSize ((m.type.map MessageType_value).getD 1))
    else m.requiredFieldsByteSizeFallback w) +
  (m.service.map fun str => 1 + w.stringSize str).getD 0 +
  (m.method.map fun str => 1 + w.stringSize str).getD 0 +
  (m.request.map fun str => 1 + w.stringSize str).getD 0 +
  (m.response.map fun str => 1 + w.stringSize str).getD 0 +
  (m.error.map fun error => 1 + w.enumSize (ErrorCode_value error)).getD 0 +
  (m.unknownFields.map w.unknownFieldSize).sum

end Serialize

/-- What the channel sees of a message that has its required fields. -/
def toMeta (m : RpcMetaMessage υ) : Option RpcMeta.RpcMetaMessage :=
  match m.type, m.id with
  | some type, some id =>
    some ⟨type, id, m.service, m.method, m.request, m.response, m.error⟩
  | _, _ => none

/-- The message as the setters build it. -/
def ofMeta (m : RpcMeta.RpcMetaMessage) : RpcMetaMessage υ :=
  ⟨some m.type, some m.id, m.service, m.method, m.request, m.response, m.error, []⟩

end RpcMetaMessage

open RpcMetaMessage in
/-- The generated code as the codec uses it. -/
def runtime (w : WireFormat υ) : Runtime where
  serialize m := (ofMeta m : RpcMetaMessage υ).internalSerialize w
  parseFromArray bytes := (RpcMetaMessage.parseFromArray w bytes).bind toMeta

end RpcMuduo.RpcMetaPb
