import RpcMuduo.RpcChannel
import RpcMuduo.WireFormat

/-!
# echo.pb

The code generated for the messages of `echo.proto`. `EchoRequest` and `EchoResponse` have one
required string each and differ in its number alone.
-/
namespace RpcMuduo.EchoPb
open Readers

/-- A payload whose has-bit is clear is `none`. -/
structure EchoMessage (υ : Type) where
  payload : Option Bytes
  unknownFields : List υ
  deriving DecidableEq

variable {υ : Type}

namespace EchoMessage

/-- A message after its constructor or `Clear`. -/
def new : EchoMessage υ := ⟨none, []⟩

section Accessors

variable (m : EchoMessage υ)

def isInitialized : Bool := m.payload.isSome

def getPayload : Bytes := m.payload.getD []

def setPayload (payload : Bytes) : EchoMessage υ := { m with payload := some payload }

def addUnknownField (u : υ) : EchoMessage υ :=
  { m with unknownFields := m.unknownFields ++ [u] }

end Accessors

section Generated

variable (w : WireFormat υ) (number : ℕ) (m : EchoMessage υ)

/-- The tag 0 and the end of a group leave the loop, and the parse counts as failed. -/
def handleUnusual (tag : ℕ) : Reader UInt8 (EchoMessage υ) :=
  if tag = 0 ∨ tag % 8 = 4 then fun _ => none
  else map m.addUnknownField (w.unknownFieldParse tag)

/-- The `switch` of `_InternalParse`. -/
def parseField (tag : ℕ) : Reader UInt8 (EchoMessage υ) :=
  if tag / 8 = number then
    if tag % 256 = 8 * number + 2 then map m.setPayload w.readString else m.handleUnusual w tag
  else m.handleUnusual w tag

def parseTurn : Reader UInt8 (EchoMessage υ) := andThen w.readTag (m.parseField w number)

/-- The loop of `_InternalParse` to the end of the input. -/
def internalParse (bytes : Bytes) : Option (EchoMessage υ) :=
  exhaust (fun m => m.parseTurn w number) m bytes

/-- Clear, parse, and test the required field. What a failed parse leaves behind is not looked
at. -/
def parseFromString (bytes : Bytes) : Bool × EchoMessage υ :=
  (new.internalParse w number bytes).elim (false, new) fun m => (m.isInitialized, m)

def internalSerialize : Bytes :=
  (m.payload.map fun str => w.writeString number str).getD [] ++
    m.unknownFields.flatMap w.serializeUnknownField

def byteSizeLong : ℕ :=
  (m.payload.map fun str => 1 + w.stringSize str).getD 0 +
    (m.unknownFields.map w.unknownFieldSize).sum

def prototype : Prototype (EchoMessage υ) where
  parseFromString := parseFromString w number
  serializeAsString m := m.internalSerialize w number

end Generated

section Parse

variable {w : WireFormat υ} {number : ℕ} (m : EchoMessage υ)

lemma parseField_payload (h : number < 16) :
    m.parseField w number (8 * number + 2) = map m.setPayload w.readString := by
  rw [parseField, if_pos (by omega), if_pos (by omega)]

lemma lawful_handleUnusual (tag : ℕ) : Lawful (m.handleUnusual w tag) := by
  unfold handleUnusual
  split
  · exact ⟨by simp, by simp⟩
  · exact (w.lawful_unknownFieldParse tag).map _

lemma lawful_parseField (tag : ℕ) : Lawful (m.parseField w number tag) := by
  unfold parseField
  split_ifs
  · exact w.lawful_readString.map _
  · exact lawful_handleUnusual m tag
  · exact lawful_handleUnusual m tag

lemma lawful_parseTurn : Lawful (m.parseTurn w number) :=
  w.lawful_readTag.andThen fun tag _ _ _ h =>
    ⟨((lawful_parseField m tag).shorter h).le, (lawful_parseField m tag).append h⟩

/-- The size computed first is that of the bytes written afterwards. -/
theorem serialized_length (h0 : 0 < number) (h16 : number < 16) :
    (m.internalSerialize w number).length = m.byteSizeLong w := by
  have hunknown : (m.unknownFields.flatMap w.serializeUnknownField).length =
      (m.unknownFields.map w.unknownFieldSize).sum := by
    simp [List.length_flatMap, w.unknownField_length]
  rw [internalSerialize, byteSizeLong, List.length_append, hunknown]
  cases m.payload with
  | none => rfl
  | some str =>
    have hstr := w.string_length h0 h16 str
    rw [Option.map_some, Option.getD_some, hstr, Option.map_some, Option.getD_some]

/-- A message that has its payload and nothing else is read back. -/
theorem parseFromString_setPayload (h0 : 0 < number) (h16 : number < 16) {payload : Bytes}
    (h : payload.length < w.maxStringSize) :
    parseFromString w number ((new.setPayload payload).internalSerialize w number) =
      (true, new.setPayload payload) := by
  have hturn : Reads ((new : EchoMessage υ).parseTurn w number) (w.writeString number payload)
      (new.setPayload payload) :=
    (w.reads_string h0 h16 h).andThen (new.parseField w number) new.setPayload fun xs => by
      rw [parseField_payload new h16]
  have hparse : new.internalParse w number (w.writeString number payload ++ []) =
      some ((new : EchoMessage υ).setPayload payload) :=
    exhaust_turn (fun m => lawful_parseTurn m) hturn []
  have hwritten : ((new : EchoMessage υ).setPayload payload).internalSerialize w number =
      w.writeString number payload ++ [] := rfl
  rw [hwritten, parseFromString, hparse]
  rfl

/-- The wire format can carry the payload, if there is one. -/
def Fits (w : WireFormat υ) (m : EchoMessage υ) : Prop :=
  ∀ payload, m.payload = some payload → payload.length < w.maxStringSize

lemma fits_parseTurn {m t : EchoMessage υ} {xs rest : Bytes} (hm : Fits w m)
    (h : m.parseTurn w number xs = some (t, rest)) : Fits w t := by
  obtain ⟨⟨tag, mid⟩, -, hfield⟩ := Option.bind_eq_some_iff.mp h
  have hunusual : m.handleUnusual w tag mid = some (t, rest) → Fits w t := by
    intro hturn
    unfold handleUnusual at hturn
    split at hturn
    · cases hturn
    · obtain ⟨u, -, rfl⟩ := map_eq_some hturn
      exact hm
  unfold parseField at hfield
  split_ifs at hfield
  · obtain ⟨str, hstr, rfl⟩ := map_eq_some hfield
    intro payload hpayload
    obtain rfl := Option.some.inj hpayload
    exact w.readString_lt hstr
  · exact hunusual hfield
  · exact hunusual hfield

/-- What is accepted has a payload that can be sent on. -/
lemma payload_of_parseFromString {bytes : Bytes} {m : EchoMessage υ}
    (h : parseFromString w number bytes = (true, m)) :
    ∃ payload, m.payload = some payload ∧ payload.length < w.maxStringSize := by
  unfold parseFromString at h
  cases hparse : new.internalParse w number bytes with
  | none => simp [hparse] at h
  | some t =>
    rw [hparse, Option.elim_some, Prod.mk.injEq] at h
    obtain ⟨hinit, rfl⟩ := h
    have hfits : Fits w t :=
      exhaust_invariant (fun m => lawful_parseTurn m)
        (fun _ _ _ _ hm hturn => fits_parseTurn hm hturn) (by simp [Fits, new]) hparse
    obtain ⟨payload, hpayload⟩ := Option.isSome_iff_exists.mp hinit
    exact ⟨payload, hpayload, hfits payload hpayload⟩

end Parse

end EchoMessage

namespace EchoRequest

def kPayloadFieldNumber : ℕ := 1

def prototype (w : WireFormat υ) : Prototype (EchoMessage υ) :=
  EchoMessage.prototype w kPayloadFieldNumber

lemma parse_serialize {w : WireFormat υ} {payload : Bytes} (h : payload.length < w.maxStringSize) :
    (prototype w).parseFromString
      ((prototype w).serializeAsString (EchoMessage.new.setPayload payload)) =
      (true, EchoMessage.new.setPayload payload) :=
  EchoMessage.parseFromString_setPayload (by decide) (by decide) h

end EchoRequest

namespace EchoResponse

def kPayloadFieldNumber : ℕ := 2

def prototype (w : WireFormat υ) : Prototype (EchoMessage υ) :=
  EchoMessage.prototype w kPayloadFieldNumber

lemma parse_serialize {w : WireFormat υ} {payload : Bytes} (h : payload.length < w.maxStringSize) :
    (prototype w).parseFromString
      ((prototype w).serializeAsString (EchoMessage.new.setPayload payload)) =
      (true, EchoMessage.new.setPayload payload) :=
  EchoMessage.parseFromString_setPayload (by decide) (by decide) h

end EchoResponse

end RpcMuduo.EchoPb
