import RpcMuduo.ProtobufWire
import RpcMuduo.RpcMetaPb

/-!
# Parsing and serializing an `RpcMetaMessage`

What the generated parser makes of any bytes, of two inputs one after the other, and of what the
generated serializer wrote; and the size that is computed before it writes.
-/
namespace RpcMuduo.RpcMetaPb
open CInt Readers RpcMeta

variable {υ : Type} {w : WireFormat υ}

namespace RpcMetaMessage

section Merge

variable (m a b : RpcMetaMessage υ)

@[simp] lemma mergeFrom_new : m.mergeFrom new = m := by
  simp [mergeFrom, new]

@[simp] lemma new_mergeFrom : (new : RpcMetaMessage υ).mergeFrom m = m := by
  simp [mergeFrom, new]

lemma mergeFrom_addUnknownField (u : υ) :
    m.mergeFrom (a.addUnknownField u) = (m.mergeFrom a).addUnknownField u := by
  simp [mergeFrom, addUnknownField]

lemma mergeFrom_parseType (val : ℕ) :
    m.mergeFrom (a.parseType w val) = (m.mergeFrom a).parseType w val := by
  unfold parseType
  generalize MessageType_ofInt (toInt32 val) = type
  cases type with
  | none => exact mergeFrom_addUnknownField m a _
  | some type => simp [mergeFrom]

lemma mergeFrom_parseError (val : ℕ) :
    m.mergeFrom (a.parseError w val) = (m.mergeFrom a).parseError w val := by
  unfold parseError
  generalize ErrorCode_ofInt (toInt32 val) = error
  cases error with
  | none => exact mergeFrom_addUnknownField m a _
  | some error => simp [mergeFrom]

end Merge

section Tags

variable (m : RpcMetaMessage υ)

lemma parseField_type : m.parseField w 8 = map (m.parseType w) w.readVarint64 := rfl

lemma parseField_id : m.parseField w 17 =
    map (fun id => { m with id := some id }) w.readFixed64 := rfl

lemma parseField_service : m.parseField w 26 =
    map (fun str => { m with service := some str }) w.readString := rfl

lemma parseField_method : m.parseField w 34 =
    map (fun str => { m with method := some str }) w.readString := rfl

lemma parseField_request : m.parseField w 42 =
    map (fun str => { m with request := some str }) w.readString := rfl

lemma parseField_response : m.parseField w 50 =
    map (fun str => { m with response := some str }) w.readString := rfl

lemma parseField_error : m.parseField w 56 = map (m.parseError w) w.readVarint64 := rfl

/-- A tag that is none of those the message knows. -/
lemma parseField_unusual {tag : ℕ} (h : tag ∉ [8, 17, 26, 34, 42, 50, 56]) :
    m.parseField w tag = m.handleUnusual w tag := by
  simp only [List.mem_cons, List.not_mem_nil, or_false, not_or] at h
  unfold parseField
  split
  all_goals first
    | rfl
    | (rw [if_neg]; omega)

end Tags

section Lawful

variable (m : RpcMetaMessage υ) (tag : ℕ)

lemma lawful_handleUnusual : Lawful (m.handleUnusual w tag) := by
  unfold handleUnusual
  split
  · exact ⟨by simp, by simp⟩
  · exact (w.lawful_unknownFieldParse tag).map _

lemma lawful_parseField : Lawful (m.parseField w tag) := by
  have hunusual := lawful_handleUnusual (w := w) m tag
  unfold parseField
  split <;> try split
  all_goals first
    | exact hunusual
    | exact w.lawful_readVarint64.map _
    | exact w.lawful_readFixed64.map _
    | exact w.lawful_readString.map _

lemma lawful_parseTurn : Lawful (m.parseTurn w) :=
  w.lawful_readTag.andThen fun tag _ _ _ h =>
    ⟨((lawful_parseField m tag).shorter h).le, (lawful_parseField m tag).append h⟩

end Lawful

section Append

variable (m a : RpcMetaMessage υ) (tag : ℕ) (xs : Bytes)

lemma handleUnusual_mergeFrom : (m.mergeFrom a).handleUnusual w tag xs =
    map m.mergeFrom (a.handleUnusual w tag) xs := by
  unfold handleUnusual
  split
  · rfl
  · simp [map, Function.comp_def, mergeFrom_addUnknownField]

/-- Parsing into a message is parsing into an empty one and merging. -/
lemma parseField_mergeFrom : (m.mergeFrom a).parseField w tag xs =
    map m.mergeFrom (a.parseField w tag) xs := by
  have hunusual := handleUnusual_mergeFrom (w := w) m a tag xs
  unfold parseField
  generalize tag / 8 = number
  split
  all_goals try split
  all_goals first
    | exact hunusual
    | (simp [map, Function.comp_def, mergeFrom_parseType, mergeFrom_parseError]; done)
    | simp [map, Function.comp_def, mergeFrom]

lemma internalParse_mergeFrom : (m.mergeFrom a).internalParse w xs =
    (a.internalParse w xs).map m.mergeFrom := by
  refine exhaust_map (fun m => lawful_parseTurn m) ?_ a xs
  intro a xs
  unfold parseTurn andThen
  cases w.readTag xs with
  | none => rfl
  | some r => exact parseField_mergeFrom m a r.1 r.2

end Append

/-- The input is used up by the turns for what comes first, and the rest is parsed into a message
of its own and merged. -/
theorem internalParse_append {m a : RpcMetaMessage υ} {xs : Bytes}
    (h : m.internalParse w xs = some a) (ys : Bytes) :
    m.internalParse w (xs ++ ys) = (new.internalParse w ys).map a.mergeFrom := by
  have hmore : m.internalParse w (xs ++ ys) = a.internalParse w ys :=
    exhaust_append (fun m => lawful_parseTurn m) h ys
  rw [hmore, ← internalParse_mergeFrom, mergeFrom_new]

section Size

variable (m : RpcMetaMessage υ)

lemma optional_length {α : Type} {write : α → Bytes} {size : α → ℕ}
    (h : ∀ a, (write a).length = size a) (field : Option α) :
    ((field.map write).getD []).length = (field.map size).getD 0 := by
  cases field with
  | none => rfl
  | some a => exact h a

/-- The size computed first is that of the bytes written afterwards. -/
theorem internalSerialize_length : (m.internalSerialize w).length = m.byteSizeLong w := by
  have hunknown : (m.unknownFields.flatMap w.serializeUnknownField).length =
      (m.unknownFields.map w.unknownFieldSize).sum := by
    simp [List.length_flatMap, w.unknownField_length]
  have hrequired : ((m.type.map fun type => w.writeEnumToArray 1 (MessageType_value type)).getD
      []).length + ((m.id.map fun id => w.writeFixed64ToArray 2 id).getD []).length =
      if m.isInitialized then 1 + 8 + (1 + w.enumSize ((m.type.map MessageType_value).getD 1))
      else m.requiredFieldsByteSizeFallback w := by
    rw [optional_length fun type => w.enum_length one_pos (by decide) _,
      optional_length fun id => w.fixed64_length two_pos (by decide) id]
    cases htype : m.type <;> cases hid : m.id <;>
      simp [isInitialized, requiredFieldsByteSizeFallback, htype, hid, Nat.add_comm]
  simp only [internalSerialize, byteSizeLong, List.length_append, hunknown, hrequired]
  rw [optional_length fun str => w.string_length (by decide) (by decide) str,
    optional_length fun str => w.string_length (by decide) (by decide) str,
    optional_length fun str => w.string_length (by decide) (by decide) str,
    optional_length fun str => w.string_length (by decide) (by decide) str,
    optional_length fun error => w.enum_length (by decide) (by decide) _]

end Size

/-- The parser takes what is written for the entry as an unknown field again. -/
def Foreign (w : WireFormat υ) (u : υ) : Prop :=
  ∀ m : RpcMetaMessage υ, Reads (m.parseTurn w) (w.serializeUnknownField u) (m.addUnknownField u)

def strings (m : RpcMetaMessage υ) : List Bytes :=
  m.service.toList ++ m.method.toList ++ m.request.toList ++ m.response.toList

/-- What the wire can carry. -/
structure WellFormed (w : WireFormat υ) (m : RpcMetaMessage υ) : Prop where
  strings_lt : ∀ str ∈ m.strings, str.length < w.maxStringSize
  foreign : ∀ u ∈ m.unknownFields, Foreign w u

section RoundTrip

variable {m s : RpcMetaMessage υ}

@[simp] lemma parseType_value (type : MessageType) :
    s.parseType w (MessageType_value type) = { s with type := some type } := by
  cases type <;> simp [parseType, MessageType_value, MessageType_ofInt, toInt32]

@[simp] lemma parseError_value (error : ErrorCode) :
    s.parseError w (ErrorCode_value error) = { s with error := some error } := by
  cases error <;> simp [parseError, ErrorCode_value, ErrorCode_ofInt, toInt32]

lemma MessageType_value_lt (type : MessageType) : MessageType_value type < 2 ^ 31 := by
  cases type <;> decide

lemma ErrorCode_value_lt (error : ErrorCode) : ErrorCode_value error < 2 ^ 31 := by
  cases error <;> decide

/-- A field that is set takes one turn, another none. -/
lemma parse_field {α : Type} {write : α → Bytes} {field : Option α}
    (set : RpcMetaMessage υ → Option α → RpcMetaMessage υ) (hnone : set s none = s)
    (h : ∀ a, field = some a → Reads (s.parseTurn w) (write a) (set s (some a))) (ys : Bytes) :
    s.internalParse w ((field.map write).getD [] ++ ys) = (set s field).internalParse w ys := by
  cases field with
  | none => rw [hnone]; rfl
  | some a => exact exhaust_turn (fun m => lawful_parseTurn m) (h a rfl) ys

lemma parse_unknownFields {fields : List υ} (h : ∀ u ∈ fields, Foreign w u) :
    s.internalParse w (fields.flatMap w.serializeUnknownField) =
      some { s with unknownFields := s.unknownFields ++ fields } := by
  induction fields generalizing s with
  | nil => simp [internalParse]
  | cons u fields ih =>
    have hturn := exhaust_turn (fun m => lawful_parseTurn m) (h u List.mem_cons_self s)
      (fields.flatMap w.serializeUnknownField)
    rw [List.flatMap_cons, internalParse, hturn]
    have hrest := ih (s := s.addUnknownField u) fun v hv => h v (List.mem_cons_of_mem u hv)
    simpa [internalParse, addUnknownField] using hrest

lemma reads_type (type : MessageType) : Reads (s.parseTurn w)
    (w.writeEnumToArray 1 (MessageType_value type)) { s with type := some type } := by
  have h := w.reads_enum one_pos (by decide : 1 < 16) (MessageType_value_lt type)
  have hturn := h.andThen (s.parseField w) (s.parseType w) fun _ => rfl
  rwa [parseType_value] at hturn

lemma reads_error (error : ErrorCode) : Reads (s.parseTurn w)
    (w.writeEnumToArray 7 (ErrorCode_value error)) { s with error := some error } := by
  have h := w.reads_enum (by decide : 0 < 7) (by decide) (ErrorCode_value_lt error)
  have hturn := h.andThen (s.parseField w) (s.parseError w) fun _ => rfl
  rwa [parseError_value] at hturn

lemma reads_id (id : CallId) : Reads (s.parseTurn w) (w.writeFixed64ToArray 2 id)
    { s with id := some id } :=
  (w.reads_fixed64 two_pos (by decide) id).andThen (s.parseField w)
    (fun id => { s with id := some id }) fun _ => rfl

/-- The field with the number is a string that goes to the place. -/
lemma parse_str {number : ℕ} (h0 : 0 < number) (h16 : number < 16)
    (set : RpcMetaMessage υ → Option Bytes → RpcMetaMessage υ) (hnone : set s none = s)
    (hset : ∀ xs, s.parseField w (8 * number + 2) xs =
      map (fun str => set s (some str)) w.readString xs)
    {field : Option Bytes} (hfield : ∀ str, field = some str → str.length < w.maxStringSize)
    (ys : Bytes) :
    s.internalParse w ((field.map fun str => w.writeString number str).getD [] ++ ys) =
      (set s field).internalParse w ys :=
  parse_field set hnone (fun _ hstr => (w.reads_string h0 h16 (hfield _ hstr)).andThen
    (s.parseField w) (fun str => set s (some str)) hset) ys

/-- Parsing what was serialized merges the message. -/
theorem internalParse_internalSerialize (h : WellFormed w m) :
    s.internalParse w (m.internalSerialize w) = some (s.mergeFrom m) := by
  have hlt : ∀ str, m.service = some str ∨ m.method = some str ∨ m.request = some str ∨
      m.response = some str → str.length < w.maxStringSize := by
    intro str hmem
    refine h.strings_lt str ?_
    simpa [strings, or_assoc] using hmem
  simp only [internalSerialize, List.append_assoc]
  rw [parse_field (fun s field => { s with type := field.or s.type }) rfl
      fun type _ => reads_type type,
    parse_field (fun s field => { s with id := field.or s.id }) rfl fun id _ => reads_id id,
    parse_str (by decide) (by decide) (fun s field => { s with service := field.or s.service }) rfl
      (fun _ => rfl) fun str hfield => hlt str (Or.inl hfield),
    parse_str (by decide) (by decide) (fun s field => { s with method := field.or s.method }) rfl
      (fun _ => rfl) fun str hfield => hlt str (Or.inr (Or.inl hfield)),
    parse_str (by decide) (by decide) (fun s field => { s with request := field.or s.request }) rfl
      (fun _ => rfl) fun str hfield => hlt str (Or.inr (Or.inr (Or.inl hfield))),
    parse_str (by decide) (by decide) (fun s field => { s with response := field.or s.response })
      rfl (fun _ => rfl) fun str hfield => hlt str (Or.inr (Or.inr (Or.inr hfield))),
    parse_field (fun s field => { s with error := field.or s.error }) rfl
      fun error _ => reads_error error,
    parse_unknownFields h.foreign]
  rfl

end RoundTrip

section Accepted

variable {m t : RpcMetaMessage υ} {xs rest : Bytes}

lemma foreign_addVarint_type {val : ℕ} (hlt : val < 2 ^ 64)
    (hnone : MessageType_ofInt (toInt32 val) = none) : Foreign w (w.addVarint 1 val) := by
  intro m
  have h := (w.reads_addVarint one_pos (by decide) hlt).andThen (m.parseField w) (m.parseType w)
    fun _ => rfl
  rwa [parseType, hnone] at h

lemma foreign_addVarint_error {val : ℕ} (hlt : val < 2 ^ 64)
    (hnone : ErrorCode_ofInt (toInt32 val) = none) : Foreign w (w.addVarint 7 val) := by
  intro m
  have h := (w.reads_addVarint (by decide : 0 < 7) (by decide) hlt).andThen (m.parseField w)
    (m.parseError w) fun _ => rfl
  rwa [parseError, hnone] at h

lemma WellFormed.addUnknownField (h : WellFormed w m) {u : υ} (hu : Foreign w u) :
    WellFormed w (m.addUnknownField u) where
  strings_lt := h.strings_lt
  foreign := by
    intro v hv
    rcases List.mem_append.mp hv with hv | hv
    · exact h.foreign v hv
    · rw [List.mem_singleton.mp hv]
      exact hu

lemma wellFormed_new : WellFormed w (new : RpcMetaMessage υ) where
  strings_lt := by simp [strings, new]
  foreign := by simp [new]

lemma WellFormed.setString (h : WellFormed w m) {str : Bytes} (hlt : str.length < w.maxStringSize)
    (hstrings : ∀ s ∈ t.strings, s ∈ m.strings ∨ s = str)
    (hunknown : t.unknownFields = m.unknownFields) : WellFormed w t where
  strings_lt := by
    intro s hs
    rcases hstrings s hs with hs | rfl
    · exact h.strings_lt s hs
    · exact hlt
  foreign := hunknown ▸ h.foreign

lemma WellFormed.parseType (h : WellFormed w m) {val : ℕ} (hlt : val < 2 ^ 64) :
    WellFormed w (m.parseType w val) := by
  unfold RpcMetaMessage.parseType
  cases htype : MessageType_ofInt (toInt32 val) with
  | none => exact h.addUnknownField (foreign_addVarint_type hlt htype)
  | some type => exact ⟨h.strings_lt, h.foreign⟩

lemma WellFormed.parseError (h : WellFormed w m) {val : ℕ} (hlt : val < 2 ^ 64) :
    WellFormed w (m.parseError w val) := by
  unfold RpcMetaMessage.parseError
  cases herror : ErrorCode_ofInt (toInt32 val) with
  | none => exact h.addUnknownField (foreign_addVarint_error hlt herror)
  | some error => exact ⟨h.strings_lt, h.foreign⟩

lemma WellFormed.handleUnusual (h : WellFormed w m) {tag : ℕ}
    (htag : ∀ m' : RpcMetaMessage υ, m'.parseField w tag = m'.handleUnusual w tag)
    (hturn : m.handleUnusual w tag xs = some (t, rest)) : WellFormed w t := by
  unfold RpcMetaMessage.handleUnusual at htag hturn
  split at hturn
  · cases hturn
  · rename_i hgoes
    obtain ⟨u, hu, rfl⟩ := map_eq_some hturn
    refine h.addUnknownField ?_
    intro m'
    refine (w.reads_unknownField hu).andThen (m'.parseField w) m'.addUnknownField ?_
    intro xs
    rw [htag m', if_neg hgoes]

/-- What a turn adds to a message can be sent on. -/
lemma WellFormed.parseTurn (hm : WellFormed w m) (h : m.parseTurn w xs = some (t, rest)) :
    WellFormed w t := by
  obtain ⟨⟨tag, mid⟩, -, h⟩ := Option.bind_eq_some_iff.mp h
  have hstr : ∀ {set : Bytes → RpcMetaMessage υ}, map set w.readString mid = some (t, rest) →
      (∀ str, (set str).unknownFields = m.unknownFields ∧
        ∀ s ∈ (set str).strings, s ∈ m.strings ∨ s = str) → WellFormed w t := by
    intro set hread hset
    obtain ⟨str, hstr, rfl⟩ := map_eq_some hread
    exact hm.setString (w.readString_lt hstr) (hset str).2 (hset str).1
  by_cases hknown : tag ∈ [8, 17, 26, 34, 42, 50, 56]
  · simp only [List.mem_cons, List.not_mem_nil, or_false] at hknown
    rcases hknown with rfl | rfl | rfl | rfl | rfl | rfl | rfl
    · rw [parseField_type] at h
      obtain ⟨val, hval, ht⟩ := map_eq_some h
      rw [ht]
      exact hm.parseType (w.readVarint64_lt hval)
    · rw [parseField_id] at h
      obtain ⟨id, -, rfl⟩ := map_eq_some h
      exact ⟨hm.strings_lt, hm.foreign⟩
    · rw [parseField_service] at h
      exact hstr h fun str => ⟨rfl, by simp [strings]; grind⟩
    · rw [parseField_method] at h
      exact hstr h fun str => ⟨rfl, by simp [strings]; grind⟩
    · rw [parseField_request] at h
      exact hstr h fun str => ⟨rfl, by simp [strings]; grind⟩
    · rw [parseField_response] at h
      exact hstr h fun str => ⟨rfl, by simp [strings]; grind⟩
    · rw [parseField_error] at h
      obtain ⟨val, hval, ht⟩ := map_eq_some h
      rw [ht]
      exact hm.parseError (w.readVarint64_lt hval)
  · rw [parseField_unusual m hknown] at h
    exact hm.handleUnusual (fun m' => parseField_unusual m' hknown) h

lemma wellFormed_internalParse (h : new.internalParse w xs = some m) : WellFormed w m :=
  exhaust_invariant (fun m => lawful_parseTurn m) (fun _ _ _ _ hm hturn => hm.parseTurn hturn)
    wellFormed_new h

end Accepted

/-- A message whose strings are not too long and whose required fields are set is read back from
its serialization, with the fields of it that are not known here. -/
theorem parseFromArray_internalSerialize {m : RpcMetaMessage υ} (hm : WellFormed w m)
    (hinit : m.isInitialized) : parseFromArray w (m.internalSerialize w) = some m := by
  rw [parseFromArray, internalParse_internalSerialize hm, new_mergeFrom, Option.filter_some,
    if_pos hinit]

/-- A message of the type RESPONSE with the id 2, after a type that is no enumerator and a field
that the message does not know; the type comes twice more. -/
def testBytes : Bytes := [8, 9, 80, 5, 17, 2, 0, 0, 0, 0, 0, 0, 0, 8, 1, 8, 2]

lemma testBytes_accepted : ∃ m, parseFromArray ProtobufWire.wireFormat testBytes = some m ∧
    m.type = some .RESPONSE ∧ m.unknownFields.length = 2 := by
  have hparse : (parseFromArray ProtobufWire.wireFormat testBytes).map
      (fun m => (m.type, m.unknownFields.length)) = some (some .RESPONSE, 2) := by decide +kernel
  obtain ⟨m, hm, hfields⟩ := Option.map_eq_some_iff.mp hparse
  obtain ⟨htype, hunknown⟩ := Prod.mk.inj hfields
  exact ⟨m, hm, htype, hunknown⟩

/-- Whatever bytes are accepted, the message has its required fields, and serializing it gives
bytes of the size computed beforehand that are accepted as the same message. -/
theorem parseFromArray_canonical {m : RpcMetaMessage υ} {bytes : Bytes}
    (h : parseFromArray w bytes = some m) : m.isInitialized ∧
      (m.internalSerialize w).length = m.byteSizeLong w ∧
      parseFromArray w (m.internalSerialize w) = some m := by
  obtain ⟨hparse, hinit⟩ := Option.filter_eq_some_iff.mp h
  exact ⟨hinit, internalSerialize_length m,
    parseFromArray_internalSerialize (wellFormed_internalParse hparse) hinit⟩

theorem parseFromArray_canonical_testBytes : ∃ m,
    parseFromArray ProtobufWire.wireFormat testBytes = some m ∧ m.unknownFields.length = 2 ∧
      parseFromArray ProtobufWire.wireFormat (m.internalSerialize ProtobufWire.wireFormat) =
        some m := by
  obtain ⟨m, hm, -, hunknown⟩ := testBytes_accepted
  exact ⟨m, hm, hunknown, (parseFromArray_canonical hm).2.2⟩

/-- Bytes that follow an accepted message are parsed on their own and merged into it, whether or
not they have the required fields; where they are refused, the whole is. -/
theorem parseFromArray_append {a : RpcMetaMessage υ} {xs : Bytes}
    (h : parseFromArray w xs = some a) (ys : Bytes) :
    parseFromArray w (xs ++ ys) = (new.internalParse w ys).map a.mergeFrom := by
  obtain ⟨hparse, hinit⟩ := Option.filter_eq_some_iff.mp h
  rw [parseFromArray, internalParse_append hparse ys]
  cases new.internalParse w ys with
  | none => rfl
  | some b =>
    have hmerged : (a.mergeFrom b).isInitialized := by
      simp only [isInitialized, Bool.and_eq_true, mergeFrom, Option.isSome_or,
        Bool.or_eq_true] at hinit ⊢
      exact ⟨Or.inr hinit.1, Or.inr hinit.2⟩
    rw [Option.map_some, Option.filter_some, if_pos hmerged]

theorem parseFromArray_append_testBytes : ∃ a,
    parseFromArray ProtobufWire.wireFormat testBytes = some a ∧
      (parseFromArray ProtobufWire.wireFormat (testBytes ++ [26, 1, 69])).map
        (fun m => (m.type, m.service)) = some (some .RESPONSE, some [69]) := by
  obtain ⟨a, ha, htype, -⟩ := testBytes_accepted
  have hmore : ((new : RpcMetaMessage ProtobufWire.UnknownField).internalParse
      ProtobufWire.wireFormat [26, 1, 69]).map (fun m => (m.type, m.service)) =
      some (none, some [69]) := by decide +kernel
  obtain ⟨b, hb, hfields⟩ := Option.map_eq_some_iff.mp hmore
  obtain ⟨htypeb, hservice⟩ := Prod.mk.inj hfields
  refine ⟨a, ha, ?_⟩
  rw [parseFromArray_append ha, hb]
  simp [mergeFrom, htype, htypeb, hservice]

end RpcMetaMessage

end RpcMuduo.RpcMetaPb
