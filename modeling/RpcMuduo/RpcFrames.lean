import RpcMuduo.CodecRoundTrip
import RpcMuduo.ProtobufWire
import RpcMuduo.RpcChannel
import RpcMuduo.RpcMetaRoundTrip

/-!
# Frames of generated messages

The codec of a channel over the generated parser and serializer. A frame within the limit of the
codec cannot hold a string that the runtime refuses, so the parser gives the message back.
-/
namespace RpcMuduo
open RpcMeta StreamDecoder

namespace RpcMetaPb

variable {υ : Type} {w : WireFormat υ}

namespace RpcMetaMessage

variable {m : RpcMeta.RpcMetaMessage}

@[simp] lemma toMeta_ofMeta (m : RpcMeta.RpcMetaMessage) :
    (ofMeta m : RpcMetaMessage υ).toMeta = some m := rfl

lemma le_optional {size : Bytes → ℕ} (hsize : ∀ str, str.length ≤ size str) {field : Option Bytes}
    {str : Bytes} (h : field = some str) :
    str.length ≤ (field.map fun str => 1 + size str).getD 0 := by
  subst h
  exact (hsize str).trans (Nat.le_add_left _ _)

/-- No string of a message is longer than the message on the wire. -/
lemma strings_le (m : RpcMetaMessage υ) {str : Bytes} (h : str ∈ m.strings) :
    str.length ≤ (m.internalSerialize w).length := by
  have hle : ∀ {field : Option Bytes}, field = some str →
      str.length ≤ (field.map fun str => 1 + w.stringSize str).getD 0 :=
    fun hfield => le_optional w.le_stringSize hfield
  rw [internalSerialize_length, byteSizeLong]
  simp only [strings, List.mem_append, Option.mem_toList] at h
  rcases h with ((h | h) | h) | h
  all_goals
    have hfield := hle h
    omega

lemma wellFormed_ofMeta (h : ((runtime w).serialize m).length < w.maxStringSize) :
    WellFormed w (ofMeta m) where
  strings_lt := fun _ hstr => (strings_le _ hstr).trans_lt h
  foreign := by simp [ofMeta]

end RpcMetaMessage

open RpcMetaMessage in
/-- Generated code reads back what it wrote of a message the channel made. -/
theorem runtime_parse_serialize {m : RpcMeta.RpcMetaMessage}
    (h : ((runtime w).serialize m).length < w.maxStringSize) :
    (runtime w).parseFromArray ((runtime w).serialize m) = some m := by
  have hparse := parseFromArray_internalSerialize (wellFormed_ofMeta h) rfl
  change (RpcMetaMessage.parseFromArray w ((ofMeta m).internalSerialize w)).bind toMeta = some m
  rw [hparse, Option.bind_some, toMeta_ofMeta]

end RpcMetaPb

namespace ProtobufCodecLite

/-- The frame of the message passes the size checks of the peer. -/
def Fits (codec : ProtobufCodecLite) (message : RpcMetaMessage) : Prop :=
  codec.tag.length + (codec.runtime.serialize message).length + kChecksumLen ≤ kMaxMessageLen

instance (codec : ProtobufCodecLite) (message : RpcMetaMessage) :
    Decidable (codec.Fits message) :=
  inferInstanceAs (Decidable (_ ≤ _))

/-- Each message that fits is one item to the decoder. -/
def Frames (codec : ProtobufCodecLite) : Prop :=
  ∀ message, codec.Fits message → Framed codec.decoder (codec.frame message) message

/-- The codec that both constructors of a channel make, with the tag "RPC0". -/
def rpcCodec {υ : Type} (w : WireFormat υ) : ProtobufCodecLite :=
  ⟨RpcMetaPb.runtime w, [82, 80, 67, 48]⟩

section Generated

variable {υ : Type} {w : WireFormat υ} {tag : Bytes}

lemma frames_generated (hmax : kMaxMessageLen ≤ w.maxStringSize) :
    Frames ⟨RpcMetaPb.runtime w, tag⟩ := by
  intro message hfits
  refine framed_frame hfits (RpcMetaPb.runtime_parse_serialize ?_)
  simp only [Fits, kChecksumLen] at hfits
  omega

end Generated

/-- Error replies are short. -/
lemma fits_errorReply {υ : Type} (w : WireFormat υ) (message : RpcMetaMessage)
    (error : RpcMeta.ErrorCode) :
    (rpcCodec w).Fits (RpcChannel.errorReply message error) := by
  have htype := w.enumSize_le (RpcMetaPb.MessageType_value .RESPONSE)
  have herror := w.enumSize_le (RpcMetaPb.ErrorCode_value error)
  have hlen : ((RpcMetaPb.runtime w).serialize (RpcChannel.errorReply message error)).length =
      1 + 8 + (1 + w.enumSize (RpcMetaPb.MessageType_value .RESPONSE)) +
        (1 + w.enumSize (RpcMetaPb.ErrorCode_value error)) :=
    RpcMetaPb.RpcMetaMessage.internalSerialize_length _
  have htag : (rpcCodec w).tag.length = 4 := rfl
  rw [Fits, htag]
  change (4 : ℤ) + ((RpcMetaPb.runtime w).serialize _).length + kChecksumLen ≤ kMaxMessageLen
  rw [hlen, kChecksumLen, kMaxMessageLen]
  omega

lemma forall₂_frames {codec : ProtobufCodecLite} (h : codec.Frames)
    {messages : List RpcMetaMessage} (hfits : ∀ m ∈ messages, codec.Fits m) :
    List.Forall₂ (Framed codec.decoder) (messages.map codec.frame) messages := by
  rw [List.forall₂_map_left_iff, List.forall₂_same]
  exact fun m hm => h m (hfits m hm)

end ProtobufCodecLite

end RpcMuduo
