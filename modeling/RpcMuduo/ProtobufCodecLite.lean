import RpcMuduo.Adler32
import RpcMuduo.BigEndian
import RpcMuduo.CInt
import RpcMuduo.RpcMeta
import RpcMuduo.StreamDecoder

/-!
# ProtobufCodecLite

Frames on the wire: a 4-byte size, the tag, the payload, and the Adler-32 of tag and payload.
Lengths are `int` in the source and integers here, converted where the source converts them.
-/
namespace RpcMuduo
open Adler32 CInt RpcMeta StreamDecoder

/-- `hostToNetwork32` and the four bytes it leaves in memory. -/
def hostToNetwork32 (host : ℤ) : Bytes := BigEndian.encode 4 (toUInt32 host)

/-- The `int32_t` read from four bytes in network order. -/
def networkToHost32 (net : Bytes) : ℤ := toInt32 (BigEndian.decode net)

namespace ProtobufCodecLite

def kHeaderLen : ℤ := 4

def kChecksumLen : ℤ := 4

def kMaxMessageLen : ℤ := 64 * 1024 * 1024

inductive ErrorCode
  | kInvalidLength
  | kCheckSumError
  | kInvalidNameLen
  | kUnknownMessageType
  | kParseError
  deriving DecidableEq, Repr

/-- `vector::resize` beyond `max_size` throws `std::length_error`. -/
inductive EncodeError
  | lengthError
  deriving DecidableEq, Repr

end ProtobufCodecLite

structure ProtobufCodecLite where
  runtime : Runtime
  tag : Bytes

namespace ProtobufCodecLite

def kMinMessageLen (codec : ProtobufCodecLite) : ℤ := toInt32 (codec.tag.length + kChecksumLen)

/-- The Adler-32 of `len` bytes from the address `buf`. -/
def checksum (buf : Bytes) (len : ℤ) : ℤ := toInt32 (adler32 (buf.take (toUInt32 len)))

/-- The room asked for is `byteSize + kChecksumLen`. From `2 ^ 31` on that sum is a negative
`int`, hence as `size_t` more than a vector can hold. -/
def serializeToBuffer (codec : ProtobufCodecLite) (message : RpcMetaMessage) (buf : Buffer) :
    Except EncodeError Buffer :=
  let payload := codec.runtime.serialize message
  if payload.length + kChecksumLen < 2 ^ 31 then
    let size := payload.length + kChecksumLen.toNat
    have h : payload.length ≤ (buf.ensureWritableBytes size).writableBytes :=
      (Nat.le_add_right _ _).trans (buf.writableBytes_ensureWritableBytes size)
    .ok (((buf.ensureWritableBytes size).storeAtWriter payload h).hasWritten payload.length
      (h.trans_eq (Buffer.writableBytes_storeAtWriter _ payload h).symm))
  else .error .lengthError

/-- The end of `fillEmptyBuffer`: the checksum after what the buffer holds, the size before it. -/
def sealFrame (buf : Buffer) : Buffer :=
  let checkSum := checksum buf.peek (toInt32 buf.readableBytes)
  let buf := buf.append (hostToNetwork32 checkSum)
  buf.prepend (hostToNetwork32 (toInt32 buf.readableBytes))

def fillEmptyBuffer (codec : ProtobufCodecLite) (buf : Buffer) (message : RpcMetaMessage) :
    Except EncodeError Buffer :=
  (codec.serializeToBuffer message (buf.append codec.tag)).map sealFrame

/-- The string that `send` passes to `TcpConnection::send`. -/
def send (codec : ProtobufCodecLite) (message : RpcMetaMessage) : Except EncodeError Bytes :=
  (codec.fillEmptyBuffer (Buffer.new Buffer.kInitialSize) message).map
    fun buf => buf.retrieveAllAsString.1

def validateChecksum (buf : Bytes) (len : ℤ) : Bool :=
  let expectedCheckSum := networkToHost32 ((buf.drop (len - kChecksumLen).toNat).take 4)
  checksum buf (len - kChecksumLen) == expectedCheckSum

/-- `kNoError` is the case of a message. -/
def parse (codec : ProtobufCodecLite) (buf : Bytes) (len : ℤ) :
    Except ErrorCode RpcMetaMessage :=
  if validateChecksum buf len then
    if buf.take codec.tag.length = codec.tag then
      let dataLen := len - kChecksumLen - toInt32 codec.tag.length
      match codec.runtime.parseFromArray ((buf.drop codec.tag.length).take dataLen.toNat) with
      | some message => .ok message
      | none => .error .kParseError
    else .error .kUnknownMessageType
  else .error .kCheckSumError

/-- The body of the loop of `onMessage` up to its callbacks: leave the loop to wait for more,
deliver a message and retrieve so many bytes, or report an error and leave. -/
def onMessageTurn (codec : ProtobufCodecLite) (buf : Buffer) : Verdict RpcMetaMessage ErrorCode :=
  if toUInt32 (codec.kMinMessageLen + kHeaderLen) ≤ buf.readableBytes then
    let len := networkToHost32 (buf.peek.take 4)
    if len > kMaxMessageLen ∨ len < codec.kMinMessageLen then .fail .kInvalidLength
    else if toSizeT (kHeaderLen + len) ≤ buf.readableBytes then
      match codec.parse (buf.peek.drop kHeaderLen.toNat) len with
      | .ok message => .item (toSizeT (kHeaderLen + len)) message
      | .error errorCode => .fail errorCode
    else .more
  else .more

section OnMessage

variable {σ : Type*} (turn : Buffer → Verdict RpcMetaMessage ErrorCode)
  (messageCallback : σ → RpcMetaMessage → σ) (errorCallback : σ → ErrorCode → σ)

/-- The loop of `onMessage` around its body, for callbacks that leave the buffer alone and act
on a state of their own; `none` when the fuel does not suffice. -/
def onMessageLoop : ℕ → Buffer → σ → Option (Buffer × σ)
  | 0, _, _ => none
  | fuel + 1, buf, s =>
    match turn buf with
    | .more => some (buf, s)
    | .fail errorCode => some (buf, errorCallback s errorCode)
    | .item n message => onMessageLoop fuel (buf.retrieve n) (messageCallback s message)

variable {turn}

lemma onMessageLoop_more {buf : Buffer} (fuel : ℕ) (s : σ) (h : turn buf = .more) :
    onMessageLoop turn messageCallback errorCallback (fuel + 1) buf s = some (buf, s) := by
  rw [onMessageLoop, h]

end OnMessage

/-- Every turn of the loop takes at least one byte when the tag is of a sensible size. -/
def onMessage {σ : Type*} (codec : ProtobufCodecLite) (messageCallback : σ → RpcMetaMessage → σ)
    (errorCallback : σ → ErrorCode → σ) (buf : Buffer) (s : σ) : Option (Buffer × σ) :=
  onMessageLoop codec.onMessageTurn messageCallback errorCallback (buf.readableBytes + 1) buf s

end ProtobufCodecLite

end RpcMuduo
