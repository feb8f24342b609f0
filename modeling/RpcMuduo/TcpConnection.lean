import RpcMuduo.Buffer
import RpcMuduo.CInt
import RpcMuduo.Channel

/-!
# TcpConnection: the output side

`sendInLoop` and the handlers as the loop thread runs them. The value that `::write` returns
is an argument and every call is recorded in `writes`, so the history of the socket is part
of the state. Counts pass through `int` where the source declares them so.
-/
namespace RpcMuduo
open CInt

/-- Functors that a connection queues in its loop. -/
inductive Functor
  | onWriteComplateCB
  | onMessageCB (message : Bytes)
  deriving DecidableEq, Repr

/-- One call `::write(fd, data, size)` and the value it returned. -/
structure WriteCall where
  fd : ℤ
  data : Bytes
  ret : ℤ
  deriving DecidableEq, Repr

/-- The bytes the kernel took: none when the call failed. -/
def WriteCall.accepted (w : WriteCall) : Bytes := w.data.take w.ret.toNat

/-- The logs `writes`, `ctls` and `functors` hold the system calls issued for the connection
and the functors it queued in its loop, oldest first; `queuedAt` holds how many bytes were
buffered when each functor was queued. -/
structure TcpConnection where
  sockfd : ℤ
  channel : Channel
  outBuf : Buffer
  writes : List WriteCall
  ctls : List EpollCtl
  functors : List Functor
  queuedAt : List ℕ
  deriving DecidableEq

/-- How a call ends: by returning, or with the `std::out_of_range` of `string::substr`. -/
inductive Outcome
  | returned
  | outOfRange
  deriving DecidableEq, Repr

/-- `std::string::substr`: positions past the end throw. -/
def substr (str : Bytes) (pos n : ℕ) : Option Bytes :=
  if pos > str.length then none else some ((str.drop pos).take n)

namespace TcpConnection

/-- The constructor registers the channel for reading. -/
def new (sockfd : ℤ) : TcpConnection :=
  let (channel, ctl) := (Channel.new sockfd).enableReading
  ⟨sockfd, channel, Buffer.new Buffer.kInitialSize, [], [ctl], [], []⟩

def write (c : TcpConnection) (fd : ℤ) (data : Bytes) (ret : ℤ) : TcpConnection :=
  { c with writes := c.writes ++ [⟨fd, data, ret⟩] }

def setWriting (c : TcpConnection) : TcpConnection :=
  let (channel, ctl) := c.channel.enableWriting
  { c with channel := channel, ctls := c.ctls ++ [ctl] }

def clearWriting (c : TcpConnection) : TcpConnection :=
  let (channel, ctl) := c.channel.disableWriting
  { c with channel := channel, ctls := c.ctls ++ [ctl] }

def queueInLoop (c : TcpConnection) (f : Functor) : TcpConnection :=
  { c with functors := c.functors ++ [f], queuedAt := c.queuedAt ++ [c.outBuf.readableBytes] }

/-- The second half of `sendInLoop`: buffer what the direct write left over. The arguments of
`substr` are converted to `size_t`, a negative `n` included. -/
def bufferRest (c : TcpConnection) (message : Bytes) (n : ℤ) : TcpConnection × Outcome :=
  if n < toInt32 message.length then
    match substr message (toSizeT n) message.length with
    | none => (c, .outOfRange)
    | some rest =>
      let c := { c with outBuf := c.outBuf.append rest }
      (if c.channel.isWriting then c else c.setWriting, .returned)
  else (c, .returned)

/-- The first half: write directly, and note a message that went out whole. -/
def directWrite (c : TcpConnection) (message : Bytes) (ret : ℤ) : TcpConnection :=
  let c := c.write c.sockfd message ret
  if toInt32 ret = toInt32 message.length then
    { c with outBuf := c.outBuf.retrieveAll }.queueInLoop .onWriteComplateCB
  else c

def sendInLoop (c : TcpConnection) (message : Bytes) (ret : ℤ) : TcpConnection × Outcome :=
  if c.outBuf.readableBytes = 0 then
    (c.directWrite message ret).bufferRest message (toInt32 ret)
  else c.bufferRest message 0

def handleWrite (c : TcpConnection) (ret : ℤ) : TcpConnection :=
  if c.channel.isWriting then
    let n := toInt32 ret
    let c := c.write c.channel.sockfd c.outBuf.readable ret
    if n > 0 then
      let c := { c with outBuf := c.outBuf.retrieve (toSizeT n) }
      if c.outBuf.readableBytes = 0 then c.clearWriting.queueInLoop .onWriteComplateCB else c
    else c
  else c

/-- The part of `handleClose` before the callbacks. -/
def handleClose (c : TcpConnection) : TcpConnection :=
  let (channel, ctl) := (c.channel.setIndex .kDeleted).disableAll
  { c with channel := channel, ctls := c.ctls ++ [ctl] }

/-- What `handleRead` does to the connection itself when `readFd` gives `readlength`, and with
whether it failed with `ECONNRESET`. -/
def handleRead (c : TcpConnection) (readlength : ℤ) (reset : Bool) : TcpConnection :=
  if c.channel.sockfd < 0 then c
  else if readlength > 0 then c
  else if readlength = 0 then c.handleClose
  else if reset then c.handleClose
  else c

/-- Bytes the kernel has accepted so far. -/
def written (c : TcpConnection) : Bytes := c.writes.flatMap WriteCall.accepted

/-- Bytes the connection has taken responsibility for: accepted by the kernel, then buffered. -/
def stream (c : TcpConnection) : Bytes := c.written ++ c.outBuf.readable

section Frame

variable (c : TcpConnection)

@[simp] theorem written_write (fd : ℤ) (data : Bytes) (ret : ℤ) :
    (c.write fd data ret).written = c.written ++ data.take ret.toNat := by
  simp [written, write, WriteCall.accepted]

@[simp] theorem outBuf_write (fd : ℤ) (data : Bytes) (ret : ℤ) :
    (c.write fd data ret).outBuf = c.outBuf := rfl

@[simp] theorem channel_write (fd : ℤ) (data : Bytes) (ret : ℤ) :
    (c.write fd data ret).channel = c.channel := rfl

@[simp] theorem stream_setWriting : c.setWriting.stream = c.stream := rfl

@[simp] theorem stream_clearWriting : c.clearWriting.stream = c.stream := rfl

@[simp] theorem stream_queueInLoop (f : Functor) : (c.queueInLoop f).stream = c.stream := rfl

@[simp] theorem stream_append (rest : Bytes) :
    { c with outBuf := c.outBuf.append rest }.stream = c.stream ++ rest := by
  simp [stream, written]

lemma bufferRest_of_le {message : Bytes} {n : ℤ} (h : toInt32 message.length ≤ n) :
    c.bufferRest message n = (c, .returned) := by
  simp [bufferRest, not_lt.mpr h]

/-- Nothing has been taken, and the whole message is buffered. -/
lemma bufferRest_zero {message : Bytes} (h : 0 < toInt32 message.length) :
    c.bufferRest message 0 =
      (if c.channel.isWriting then { c with outBuf := c.outBuf.append message }
        else { c with outBuf := c.outBuf.append message }.setWriting, .returned) := by
  have hzero : toSizeT 0 = 0 := by decide
  simp [bufferRest, h, substr, hzero]

lemma writes_bufferRest (message : Bytes) (n : ℤ) :
    (c.bufferRest message n).1.writes = c.writes := by
  unfold bufferRest
  split
  · split
    · rfl
    · simp only
      split <;> rfl
  · rfl

lemma writes_directWrite (message : Bytes) (ret : ℤ) :
    (c.directWrite message ret).writes = c.writes ++ [⟨c.sockfd, message, ret⟩] := by
  unfold directWrite
  simp only
  split <;> rfl

/-- Without output in the buffer there is nothing to wait for. -/
lemma handleWrite_of_not_isWriting (h : c.channel.isWriting = false) (ret : ℤ) :
    c.handleWrite ret = c := by
  simp [handleWrite, h]

lemma handleRead_cases (readlength : ℤ) (reset : Bool) :
    c.handleRead readlength reset = c ∨ c.handleRead readlength reset = c.handleClose := by
  unfold handleRead
  split_ifs <;> simp

end Frame

/-- What the parts of a send and of a drain all keep. -/
structure Kept (P : TcpConnection → Prop) : Prop where
  write : ∀ c fd data ret, P c → P (c.write fd data ret)
  outBuf : ∀ c buffer, P c → P { c with outBuf := buffer }
  setWriting : ∀ c, P c → P c.setWriting
  clearWriting : ∀ c, P c → P c.clearWriting
  queueInLoop : ∀ c f, P c → P (c.queueInLoop f)

section Kept

variable {P : TcpConnection → Prop} {c : TcpConnection}

lemma Kept.bufferRest (h : Kept P) (hc : P c) (message : Bytes) (n : ℤ) :
    P (c.bufferRest message n).1 := by
  unfold TcpConnection.bufferRest
  split
  · split
    · exact hc
    · simp only
      split
      · exact h.outBuf _ _ hc
      · exact h.setWriting _ (h.outBuf _ _ hc)
  · exact hc

lemma Kept.directWrite (h : Kept P) (hc : P c) (message : Bytes) (ret : ℤ) :
    P (c.directWrite message ret) := by
  have hwrite := h.write c c.sockfd message ret hc
  unfold TcpConnection.directWrite
  simp only
  split
  · exact h.queueInLoop _ _ (h.outBuf _ _ hwrite)
  · exact hwrite

lemma Kept.sendInLoop (h : Kept P) (hc : P c) (message : Bytes) (ret : ℤ) :
    P (c.sendInLoop message ret).1 := by
  unfold TcpConnection.sendInLoop
  split
  · exact h.bufferRest (h.directWrite hc message ret) message (toInt32 ret)
  · exact h.bufferRest hc message 0

lemma Kept.handleWrite (h : Kept P) (hc : P c) (ret : ℤ) : P (c.handleWrite ret) := by
  have hwrite := h.write c c.channel.sockfd c.outBuf.readable ret hc
  unfold TcpConnection.handleWrite
  split
  · simp only
    split
    · split
      · exact h.queueInLoop _ _ (h.clearWriting _ (h.outBuf _ _ hwrite))
      · exact h.outBuf _ _ hwrite
    · exact hwrite
  · exact hc

end Kept

end TcpConnection

end RpcMuduo
