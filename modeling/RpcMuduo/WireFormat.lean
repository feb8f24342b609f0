import RpcMuduo.Readers

/-!
# The wire format under generated code

What code generated for a protobuf message calls of the runtime: readers and writers of tags and
of values, and the bookkeeping of fields it does not know. The laws are those of the encoding: a
written field is read back whatever follows it, and its size is known beforehand.
-/
namespace RpcMuduo
open Readers

/-- A tag, and then a value that the tag says how to read. -/
def Readers.tagged {α β : Type*} (readTag : Reader α ℕ) (read : ℕ → Reader α β) :
    Reader α (ℕ × β) :=
  andThen readTag fun tag => Readers.map (Prod.mk tag) (read tag)

/-- `υ` is the type of the entries of an `UnknownFieldSet`. Fields with a number below 16 have tags
of one byte. A string from `maxStringSize` on is refused by the reader of its size. -/
structure WireFormat (υ : Type) where
  readTag : Reader UInt8 ℕ
  readVarint64 : Reader UInt8 ℕ
  readFixed64 : Reader UInt8 (BitVec 64)
  readString : Reader UInt8 (List UInt8)
  unknownFieldParse : ℕ → Reader UInt8 υ
  addVarint : ℕ → ℕ → υ
  writeEnumToArray : ℕ → ℕ → List UInt8
  writeFixed64ToArray : ℕ → BitVec 64 → List UInt8
  writeString : ℕ → List UInt8 → List UInt8
  serializeUnknownField : υ → List UInt8
  enumSize : ℕ → ℕ
  stringSize : List UInt8 → ℕ
  unknownFieldSize : υ → ℕ
  maxStringSize : ℕ
  lawful_readTag : Lawful readTag
  lawful_readVarint64 : Lawful readVarint64
  lawful_readFixed64 : Lawful readFixed64
  lawful_readString : Lawful readString
  lawful_unknownFieldParse : ∀ tag, Lawful (unknownFieldParse tag)
  readVarint64_lt : ∀ {xs val rest}, readVarint64 xs = some (val, rest) → val < 2 ^ 64
  readString_lt : ∀ {xs s rest}, readString xs = some (s, rest) → s.length < maxStringSize
  reads_enum : ∀ {number value}, 0 < number → number < 16 → value < 2 ^ 31 →
    Reads (tagged readTag fun _ => readVarint64) (writeEnumToArray number value)
      (8 * number, value)
  reads_fixed64 : ∀ {number}, 0 < number → number < 16 → ∀ value,
    Reads (tagged readTag fun _ => readFixed64) (writeFixed64ToArray number value)
      (8 * number + 1, value)
  reads_string : ∀ {number s}, 0 < number → number < 16 → s.length < maxStringSize →
    Reads (tagged readTag fun _ => readString) (writeString number s) (8 * number + 2, s)
  reads_addVarint : ∀ {number value}, 0 < number → number < 16 → value < 2 ^ 64 →
    Reads (tagged readTag fun _ => readVarint64) (serializeUnknownField (addVarint number value))
      (8 * number, value)
  reads_unknownField : ∀ {tag xs u rest}, unknownFieldParse tag xs = some (u, rest) →
    Reads (tagged readTag unknownFieldParse) (serializeUnknownField u) (tag, u)
  enum_length : ∀ {number}, 0 < number → number < 16 → ∀ value,
    (writeEnumToArray number value).length = 1 + enumSize value
  fixed64_length : ∀ {number}, 0 < number → number < 16 → ∀ value,
    (writeFixed64ToArray number value).length = 1 + 8
  string_length : ∀ {number}, 0 < number → number < 16 → ∀ s,
    (writeString number s).length = 1 + stringSize s
  enumSize_le : ∀ value, enumSize value ≤ 10
  le_stringSize : ∀ s, s.length ≤ stringSize s
  unknownField_length : ∀ u, (serializeUnknownField u).length = unknownFieldSize u

namespace Readers

variable {α β γ : Type*} {readTag : Reader α ℕ} {read : ℕ → Reader α β}

theorem tagged_eq_some {xs : List α} {tag : ℕ} {b : β} {rest : List α} :
    tagged readTag read xs = some ((tag, b), rest) ↔
      ∃ mid, readTag xs = some (tag, mid) ∧ read tag mid = some (b, rest) := by
  constructor
  · intro h
    obtain ⟨r, hr, h⟩ := Option.bind_eq_some_iff.mp h
    obtain ⟨p, hp, h⟩ := Option.map_eq_some_iff.mp h
    simp only [Prod.mk.injEq] at h
    obtain ⟨⟨rfl, rfl⟩, rfl⟩ := h
    exact ⟨r.2, hr, hp⟩
  · rintro ⟨mid, htag, hread⟩
    simp [tagged, andThen, map, htag, hread]

/-- What the tag leads to matters only for the tag that is there. -/
theorem Reads.andThen {written : List α} {tag : ℕ} {b : β}
    (h : Reads (tagged readTag read) written (tag, b)) (next : ℕ → Reader α γ) (f : β → γ)
    (hnext : ∀ xs, next tag xs = map f (read tag) xs) :
    Reads (andThen readTag next) written (f b) := by
  intro ys
  obtain ⟨mid, htag, hread⟩ := tagged_eq_some.mp (h ys)
  simp [Readers.andThen, htag, hnext, map, hread]

end Readers

end RpcMuduo
