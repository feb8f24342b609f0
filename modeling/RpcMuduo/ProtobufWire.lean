import RpcMuduo.BigEndian
import RpcMuduo.Varint
import RpcMuduo.WireFormat

/-!
# The wire format of protobuf

Tags and sizes as varints, fixed-width numbers in little-endian order, and the fields that a
message does not know, with groups of them nested up to a limit.
-/
namespace RpcMuduo.ProtobufWire
open Readers

inductive UnknownField
  | varint (number value : ℕ)
  | fixed64 (number : ℕ) (value : BitVec 64)
  | lengthDelimited (number : ℕ) (value : List UInt8)
  | group (number : ℕ) (fields : List UnknownField)
  | fixed32 (number : ℕ) (value : BitVec 32)

/-- How deep messages and groups may nest. -/
def kDefaultRecursionLimit : ℕ := 100

/-- Sizes close to the end of `int` are refused. -/
def maxStringSize : ℕ := 2 ^ 31 - 16

def readTag : Reader UInt8 ℕ := map (· % 2 ^ 32) (Varint.decode 5)

def readVarint64 : Reader UInt8 ℕ := map (· % 2 ^ 64) (Varint.decode 10)

def readFixed (width : ℕ) : Reader UInt8 (BitVec (8 * width)) :=
  map (fun bytes => BitVec.ofNat _ (BigEndian.decode bytes.reverse)) (take width)

def readSize : Reader UInt8 ℕ := filter (· < maxStringSize) (Varint.decode 5)

def readString : Reader UInt8 (List UInt8) := andThen readSize take

def writeTag (tag : ℕ) : List UInt8 := Varint.encode 5 tag

def writeFixed {width : ℕ} (value : BitVec (8 * width)) : List UInt8 :=
  (BigEndian.encode width value.toNat).reverse

def writeSized (s : List UInt8) : List UInt8 := Varint.encode 5 s.length ++ s

/-- The fields of a group up to its end. -/
@[grind =] def fieldsUntil (field : ℕ → Reader UInt8 UnknownField) (endTag : ℕ) :
    ℕ → Reader UInt8 (List UnknownField)
  | 0, _ => none
  | fuel + 1, xs =>
    (readTag xs).bind fun r =>
      if r.1 = 0 ∨ r.1 % 8 = 4 then if r.1 = endTag then some ([], r.2) else none
      else (field r.1 r.2).bind fun f =>
        (fieldsUntil field endTag fuel f.2).map fun fs => (f.1 :: fs.1, fs.2)

/-- One field after its tag, with a reader for what is inside a group. -/
def fieldParse (group : ℕ → Reader UInt8 (List UnknownField)) (tag : ℕ) :
    Reader UInt8 UnknownField :=
  if tag / 8 = 0 ∨ 2 ^ 32 ≤ tag then fun _ => none
  else
    match tag % 8 with
    | 0 => map (.varint (tag / 8)) readVarint64
    | 1 => map (.fixed64 (tag / 8)) (readFixed 8)
    | 2 => map (.lengthDelimited (tag / 8)) readString
    | 3 => map (.group (tag / 8)) (group tag)
    | 5 => map (.fixed32 (tag / 8)) (readFixed 4)
    | _ => fun _ => none

def groupParse : ℕ → ℕ → Reader UInt8 (List UnknownField)
  | 0, _ => fun _ => none
  | depth + 1, tag => fun xs =>
    fieldsUntil (fieldParse (groupParse depth)) (tag + 1) (xs.length + 1) xs

def unknownFieldParse : ℕ → Reader UInt8 UnknownField :=
  fieldParse (groupParse kDefaultRecursionLimit)

mutual

def serializeUnknownField : UnknownField → List UInt8
  | .varint number value => writeTag (8 * number) ++ Varint.encode 10 value
  | .fixed64 number value => writeTag (8 * number + 1) ++ @writeFixed 8 value
  | .lengthDelimited number value => writeTag (8 * number + 2) ++ writeSized value
  | .group number fields =>
    writeTag (8 * number + 3) ++ (serializeUnknownFields fields ++ writeTag (8 * number + 4))
  | .fixed32 number value => writeTag (8 * number + 5) ++ @writeFixed 4 value

def serializeUnknownFields : List UnknownField → List UInt8
  | [] => []
  | u :: fields => serializeUnknownField u ++ serializeUnknownFields fields

end

section Values

lemma lawful_readTag : Lawful readTag := (Varint.lawful_decode 5).map _

lemma lawful_readVarint64 : Lawful readVarint64 := (Varint.lawful_decode 10).map _

lemma lawful_readFixed {width : ℕ} (h : 0 < width) : Lawful (readFixed width) :=
  (lawful_take h).map _

lemma lawful_readString : Lawful readString :=
  ((Varint.lawful_decode 5).filter _).andThen fun n _ _ _ h =>
    ⟨by have hlen := (take_append h).1; omega, (take_append h).2⟩

lemma readVarint64_lt {xs : List UInt8} {val : ℕ} {rest : List UInt8}
    (h : readVarint64 xs = some (val, rest)) : val < 2 ^ 64 := by
  obtain ⟨n, -, rfl⟩ := map_eq_some h
  exact Nat.mod_lt _ (by decide)

lemma readString_lt {xs s rest : List UInt8} (h : readString xs = some (s, rest)) :
    s.length < maxStringSize := by
  obtain ⟨r, hr, hs⟩ := Option.bind_eq_some_iff.mp h
  obtain ⟨-, hlt⟩ := Option.filter_eq_some_iff.mp hr
  simp only [take, Option.ite_none_right_eq_some, Option.some.injEq, Prod.mk.injEq] at hs
  obtain ⟨-, rfl, -⟩ := hs
  rw [List.length_take]
  exact (min_le_left _ _).trans_lt (by simpa using hlt)

lemma reads_tag {tag : ℕ} (h : tag < 2 ^ 32) : Reads readTag (writeTag tag) tag := by
  intro ys
  have hlt : tag < 128 ^ (4 + 1) := h.trans (by decide)
  have hread := Varint.decode_encode hlt ys
  rw [readTag, map, writeTag, hread, Option.map_some, Nat.mod_eq_of_lt h]

lemma reads_varint64 {value : ℕ} (h : value < 2 ^ 64) :
    Reads readVarint64 (Varint.encode 10 value) value := by
  intro ys
  have hlt : value < 128 ^ (9 + 1) := h.trans (by decide)
  have hread := Varint.decode_encode hlt ys
  rw [readVarint64, map, hread, Option.map_some, Nat.mod_eq_of_lt h]

lemma reads_fixed {width : ℕ} (value : BitVec (8 * width)) :
    Reads (readFixed width) (writeFixed value) value := by
  intro ys
  have hlen : (writeFixed value).length = width := by simp [writeFixed]
  have htake := reads_take (writeFixed value) ys
  rw [hlen] at htake
  have hlt : value.toNat < 256 ^ width := by
    have h := value.isLt
    rwa [pow_mul] at h
  rw [readFixed, map, htake, Option.map_some, writeFixed, List.reverse_reverse,
    BigEndian.decode_encode, Nat.mod_eq_of_lt hlt, BitVec.ofNat_toNat, BitVec.setWidth_eq]

lemma reads_string {s : List UInt8} (h : s.length < maxStringSize) :
    Reads readString (writeSized s) s := by
  intro ys
  have hlt : s.length < 128 ^ (4 + 1) := h.trans (by decide)
  have hsize := Varint.decode_encode hlt (s ++ ys)
  rw [readString, andThen, readSize, filter, writeSized, List.append_assoc, hsize,
    Option.filter_some, if_pos (by simpa using h), Option.bind_some]
  exact reads_take s ys

end Values

section Groups

variable {field : ℕ → Reader UInt8 UnknownField} {endTag : ℕ}

/-- With fuel for the input at hand there is fuel for any longer one. -/
lemma fieldsUntil_append (hfield : ∀ tag, Lawful (field tag)) {fuel more : ℕ} (hle : fuel ≤ more)
    {xs : List UInt8} {fs : List UnknownField} {rest : List UInt8}
    (h : fieldsUntil field endTag fuel xs = some (fs, rest)) :
    rest.length < xs.length ∧
      ∀ ys, fieldsUntil field endTag more (xs ++ ys) = some (fs, rest ++ ys) := by
  induction fuel generalizing more xs fs rest with
  | zero => cases h
  | succ fuel ih =>
    obtain ⟨k, rfl⟩ : ∃ k, more = k + 1 := ⟨more - 1, by omega⟩
    rw [fieldsUntil] at h
    obtain ⟨⟨tag, mid⟩, htag, h⟩ := Option.bind_eq_some_iff.mp h
    have hshort := lawful_readTag.shorter htag
    have hmore : ∀ ys, readTag (xs ++ ys) = some (tag, mid ++ ys) := lawful_readTag.append htag
    simp only at h
    split_ifs at h with hstop hend
    · obtain ⟨rfl, rfl⟩ := Prod.mk.inj (Option.some.inj h)
      refine ⟨hshort, fun ys => ?_⟩
      rw [fieldsUntil, hmore ys, Option.bind_some, if_pos hstop, if_pos hend]
    · obtain ⟨⟨f, mid'⟩, hf, h⟩ := Option.bind_eq_some_iff.mp h
      obtain ⟨⟨fs', rest'⟩, hfs, h⟩ := Option.map_eq_some_iff.mp h
      obtain ⟨rfl, rfl⟩ := Prod.mk.inj h
      obtain ⟨hlen, hrest⟩ := ih (Nat.le_of_succ_le_succ hle) hfs
      have hshort' := (hfield tag).shorter hf
      refine ⟨hlen.trans (hshort'.trans hshort), fun ys => ?_⟩
      rw [fieldsUntil, hmore ys, Option.bind_some, if_neg hstop, (hfield tag).append hf ys,
        Option.bind_some, hrest ys, Option.map_some]

lemma fieldsUntil_written (hend : endTag % 8 = 4)
    (hlt : endTag < 2 ^ 32) {fs : List UnknownField}
    (hfs : ∀ u ∈ fs, ∃ tag, ¬ (tag = 0 ∨ tag % 8 = 4) ∧
      Reads (tagged readTag field) (serializeUnknownField u) (tag, u)) {fuel : ℕ}
    (hfuel : fs.length < fuel) :
    Reads (fieldsUntil field endTag fuel) (serializeUnknownFields fs ++ writeTag endTag) fs := by
  intro ys
  induction fs generalizing fuel with
  | nil =>
    obtain ⟨k, rfl⟩ : ∃ k, fuel = k + 1 := ⟨fuel - 1, by simp at hfuel; omega⟩
    rw [serializeUnknownFields, List.nil_append, fieldsUntil, reads_tag hlt ys, Option.bind_some,
      if_pos (Or.inr hend), if_pos rfl]
  | cons u fs ih =>
    obtain ⟨k, rfl⟩ : ∃ k, fuel = k + 1 := ⟨fuel - 1, by simp at hfuel; omega⟩
    obtain ⟨tag, hgo, hread⟩ := hfs u List.mem_cons_self
    have hrest := ih (fun v hv => hfs v (List.mem_cons_of_mem u hv))
      (by simpa using Nat.lt_of_succ_lt_succ hfuel : fs.length < k)
    rw [List.append_assoc] at hrest
    have hu := hread (serializeUnknownFields fs ++ (writeTag endTag ++ ys))
    obtain ⟨mid, htag, hvalue⟩ := tagged_eq_some.mp hu
    rw [serializeUnknownFields, List.append_assoc, List.append_assoc, fieldsUntil, htag,
      Option.bind_some, if_neg hgo, hvalue, Option.bind_some, hrest, Option.map_some]

/-- The fields that are read inside a group can be read again after they were written. -/
lemma fieldsUntil_reads
    (hreads : ∀ {tag xs u rest}, field tag xs = some (u, rest) →
      Reads (tagged readTag field) (serializeUnknownField u) (tag, u)) {fuel : ℕ}
    {xs : List UInt8} {fs : List UnknownField} {rest : List UInt8}
    (h : fieldsUntil field endTag fuel xs = some (fs, rest)) :
    ∀ u ∈ fs, ∃ tag, ¬ (tag = 0 ∨ tag % 8 = 4) ∧
      Reads (tagged readTag field) (serializeUnknownField u) (tag, u) := by
  induction fuel generalizing xs fs rest with
  | zero => cases h
  | succ fuel ih =>
    rw [fieldsUntil] at h
    obtain ⟨⟨tag, mid⟩, htag, h⟩ := Option.bind_eq_some_iff.mp h
    simp only at h
    split_ifs at h with hstop hend
    · obtain ⟨rfl, rfl⟩ := Prod.mk.inj (Option.some.inj h)
      simp
    · obtain ⟨⟨f, mid'⟩, hf, h⟩ := Option.bind_eq_some_iff.mp h
      obtain ⟨⟨fs', rest'⟩, hfs, h⟩ := Option.map_eq_some_iff.mp h
      obtain ⟨rfl, rfl⟩ := Prod.mk.inj h
      intro u hu
      rcases List.mem_cons.mp hu with rfl | hu
      · exact ⟨tag, hstop, hreads hf⟩
      · exact ih hfs u hu

end Groups

section Fields

variable {group : ℕ → Reader UInt8 (List UnknownField)}

lemma writeTag_length_pos (tag : ℕ) : 0 < (writeTag tag).length := by
  rw [writeTag, Varint.encode_length]
  exact Varint.size_pos 4 tag

lemma serializeUnknownField_length_pos (u : UnknownField) :
    0 < (serializeUnknownField u).length := by
  cases u <;>
    simp only [serializeUnknownField, List.length_append] <;>
    exact Nat.add_pos_left (writeTag_length_pos _) _

lemma length_le_serializeUnknownFields (fs : List UnknownField) :
    fs.length ≤ (serializeUnknownFields fs).length := by
  induction fs with
  | nil => simp
  | cons u fs ih =>
    have hu := serializeUnknownField_length_pos u
    simp only [serializeUnknownFields, List.length_cons, List.length_append]
    omega

lemma lawful_fieldParse (hgroup : ∀ tag, Lawful (group tag)) (tag : ℕ) :
    Lawful (fieldParse group tag) := by
  have hnone : Lawful (fun _ => none : Reader UInt8 UnknownField) := ⟨by simp, by simp⟩
  unfold fieldParse
  split
  · exact hnone
  · split
    · exact lawful_readVarint64.map _
    · exact (lawful_readFixed (by decide : 0 < 8)).map _
    · exact lawful_readString.map _
    · exact (hgroup tag).map _
    · exact (lawful_readFixed (by decide : 0 < 4)).map _
    · exact hnone

lemma lawful_groupParse (depth tag : ℕ) : Lawful (groupParse depth tag) := by
  induction depth generalizing tag with
  | zero => exact ⟨by simp [groupParse], by simp [groupParse]⟩
  | succ depth ih =>
    have hfield := lawful_fieldParse ih
    refine ⟨?_, ?_⟩
    · intro xs fs rest h
      exact (fieldsUntil_append hfield le_rfl h).1
    · intro xs fs rest h ys
      have hle : xs.length + 1 ≤ (xs ++ ys).length + 1 := by simp
      exact (fieldsUntil_append hfield hle h).2 ys

/-- A field that is not known comes out of its serialization with the tag it came with. -/
lemma reads_fieldParse
    (hgroup : ∀ {tag xs fs rest}, tag % 8 = 3 → tag < 2 ^ 32 → group tag xs = some (fs, rest) →
      Reads (group tag) (serializeUnknownFields fs ++ writeTag (tag + 1)) fs) {tag : ℕ}
    {xs : List UInt8} {u : UnknownField} {rest : List UInt8}
    (h : fieldParse group tag xs = some (u, rest)) :
    Reads (tagged readTag (fieldParse group)) (serializeUnknownField u) (tag, u) := by
  have hrange : ¬ (tag / 8 = 0 ∨ 2 ^ 32 ≤ tag) := by
    intro hbad
    rw [fieldParse, if_pos hbad] at h
    cases h
  have hlt : tag < 2 ^ 32 := by omega
  have htag := reads_tag hlt
  -- the value is read as the wire type in the tag says
  have hwritten : ∀ {β : Type} {read : Reader UInt8 β} {f : β → UnknownField} {b : β}
      {written : List UInt8}, fieldParse group tag = map f read → Reads read written b →
      serializeUnknownField (f b) = writeTag tag ++ written →
      Reads (tagged readTag (fieldParse group)) (serializeUnknownField (f b)) (tag, f b) := by
    intro β read f b written hparse hread hserialize ys
    refine tagged_eq_some.mpr ⟨written ++ ys, ?_, ?_⟩
    · rw [hserialize, List.append_assoc, htag]
    · rw [hparse, map, hread ys, Option.map_some]
  have hsplit : ∀ {k}, tag % 8 = k → 8 * (tag / 8) + k = tag := by
    intro k hk
    omega
  have hmod : tag % 8 < 8 := Nat.mod_lt _ (by decide)
  have hunfold : ∀ {k}, tag % 8 = k → fieldParse group tag =
      match k with
      | 0 => map (.varint (tag / 8)) readVarint64
      | 1 => map (.fixed64 (tag / 8)) (readFixed 8)
      | 2 => map (.lengthDelimited (tag / 8)) readString
      | 3 => map (.group (tag / 8)) (group tag)
      | 5 => map (.fixed32 (tag / 8)) (readFixed 4)
      | _ => fun _ => none := by
    intro k hk
    rw [fieldParse, if_neg hrange, hk]
  generalize htype : tag % 8 = k at hmod
  have hparse := hunfold htype
  have htag8 := hsplit htype
  interval_cases k
  · obtain ⟨value, hvalue, rfl⟩ := map_eq_some (hparse ▸ h)
    refine hwritten hparse (reads_varint64 (readVarint64_lt hvalue)) ?_
    rw [serializeUnknownField, ← Nat.add_zero (8 * (tag / 8)), htag8]
  · obtain ⟨value, -, rfl⟩ := map_eq_some (hparse ▸ h)
    refine hwritten hparse (@reads_fixed 8 value) ?_
    rw [serializeUnknownField, htag8]
  · obtain ⟨s, hs, rfl⟩ := map_eq_some (hparse ▸ h)
    refine hwritten hparse (reads_string (readString_lt hs)) ?_
    rw [serializeUnknownField, htag8]
  · obtain ⟨fs, hfs, rfl⟩ := map_eq_some (hparse ▸ h)
    refine hwritten hparse (hgroup htype hlt hfs) ?_
    have hend : 8 * (tag / 8) + 4 = tag + 1 := by omega
    rw [serializeUnknownField, htag8, hend]
  · cases hparse ▸ h
  · obtain ⟨value, -, rfl⟩ := map_eq_some (hparse ▸ h)
    refine hwritten hparse (@reads_fixed 4 value) ?_
    rw [serializeUnknownField, htag8]
  · cases hparse ▸ h
  · cases hparse ▸ h

lemma reads_groupParse (depth : ℕ) {tag : ℕ} {xs : List UInt8} {fs : List UnknownField}
    {rest : List UInt8} (htype : tag % 8 = 3) (hlt : tag < 2 ^ 32)
    (h : groupParse depth tag xs = some (fs, rest)) :
    Reads (groupParse depth tag) (serializeUnknownFields fs ++ writeTag (tag + 1)) fs := by
  induction depth generalizing tag xs fs rest with
  | zero => cases h
  | succ depth ih =>
    intro ys
    have hfs := fieldsUntil_reads (fun hu => reads_fieldParse ih hu) h
    have hlen := length_le_serializeUnknownFields fs
    exact fieldsUntil_written (by omega) (by omega) hfs
      (by simp only [List.length_append]; omega) ys

end Fields

section Numbered

variable {number : ℕ}

lemma writeTag_length (h : number < 16) {type : ℕ} (htype : type < 8) :
    (writeTag (8 * number + type)).length = 1 := by
  have hsmall : 8 * number + type < 128 := by omega
  simp [writeTag, Varint.encode, hsmall]

lemma reads_numbered {β : Type} {read : Reader UInt8 β} {written : List UInt8} {b : β}
    (h : number < 16) {type : ℕ} (htype : type < 8) (hread : Reads read written b) :
    Reads (tagged readTag fun _ => read) (writeTag (8 * number + type) ++ written)
      (8 * number + type, b) := by
  intro ys
  have hlt : 8 * number + type < 2 ^ 32 := by omega
  have htag := reads_tag hlt (written ++ ys)
  rw [← List.append_assoc] at htag
  exact tagged_eq_some.mpr ⟨written ++ ys, htag, hread ys⟩

lemma reads_enum {value : ℕ} (h : number < 16) (hvalue : value < 2 ^ 64) :
    Reads (tagged readTag fun _ => readVarint64) (writeTag (8 * number) ++ Varint.encode 10 value)
      (8 * number, value) :=
  reads_numbered h (Nat.zero_lt_succ 7) (reads_varint64 hvalue)

end Numbered

/-- The documented encoding keeps the laws. -/
def wireFormat : WireFormat UnknownField where
  readTag := readTag
  readVarint64 := readVarint64
  readFixed64 := readFixed 8
  readString := readString
  unknownFieldParse := unknownFieldParse
  addVarint := .varint
  writeEnumToArray number value := writeTag (8 * number) ++ Varint.encode 10 value
  writeFixed64ToArray number value := writeTag (8 * number + 1) ++ @writeFixed 8 value
  writeString number s := writeTag (8 * number + 2) ++ writeSized s
  serializeUnknownField := serializeUnknownField
  enumSize := Varint.size 10
  stringSize s := Varint.size 5 s.length + s.length
  unknownFieldSize u := (serializeUnknownField u).length
  maxStringSize := maxStringSize
  lawful_readTag := lawful_readTag
  lawful_readVarint64 := lawful_readVarint64
  lawful_readFixed64 := lawful_readFixed (by decide)
  lawful_readString := lawful_readString
  lawful_unknownFieldParse := lawful_fieldParse (lawful_groupParse kDefaultRecursionLimit)
  readVarint64_lt := readVarint64_lt
  readString_lt := readString_lt
  reads_enum := fun _ h hvalue => reads_enum h (hvalue.trans (by decide))
  reads_fixed64 := fun _ h value => reads_numbered h (by decide) (@reads_fixed 8 value)
  reads_string := fun _ h hs => reads_numbered h (by decide) (reads_string hs)
  reads_addVarint := fun _ h hvalue => reads_enum h hvalue
  reads_unknownField := reads_fieldParse fun htype hlt h => reads_groupParse _ htype hlt h
  enum_length := fun _ h value => by
    rw [List.length_append, Varint.encode_length]
    exact congrArg (· + _) (writeTag_length h (Nat.zero_lt_succ 7))
  fixed64_length := fun _ h value => by
    rw [List.length_append, writeTag_length h (by decide)]
    simp [writeFixed]
  string_length := fun _ h s => by
    rw [List.length_append, writeTag_length h (by decide), writeSized, List.length_append,
      Varint.encode_length]
  enumSize_le := Varint.size_le 10
  le_stringSize := fun _ => Nat.le_add_left _ _
  unknownField_length := fun _ => rfl

end RpcMuduo.ProtobufWire
