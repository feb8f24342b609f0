import Mathlib

/-!
# Channel and Epoll

A channel is the registration of one descriptor with the loop's epoll instance. Of an event
mask only the bits that the code tests are kept.
-/
namespace RpcMuduo

/-- The constants `kNew`, `kAdded` and `kDeleted` that choose the operation of `Epoll::update`. -/
inductive Index
  | kNew
  | kAdded
  | kDeleted
  deriving DecidableEq, Repr

structure EpollEvents where
  epollin : Bool
  epollout : Bool
  epollhup : Bool
  deriving DecidableEq, Repr

def EpollEvents.none : EpollEvents := ⟨false, false, false⟩

/-- The bits `EPOLLIN`, `EPOLLOUT` and `EPOLLHUP` of a mask that `epoll_wait` reports. -/
def EpollEvents.ofMask (mask : UInt32) : EpollEvents :=
  ⟨mask &&& 0x001 ≠ 0, mask &&& 0x004 ≠ 0, mask &&& 0x010 ≠ 0⟩

structure Channel where
  sockfd : ℤ
  events : EpollEvents
  revents : EpollEvents
  index : Index
  deriving DecidableEq, Repr

inductive CtlOp
  | EPOLL_CTL_ADD
  | EPOLL_CTL_MOD
  | EPOLL_CTL_DEL
  deriving DecidableEq, Repr

/-- One call `epoll_ctl(_epollfd, op, fd, &ev)`. -/
structure EpollCtl where
  op : CtlOp
  fd : ℤ
  events : EpollEvents
  deriving DecidableEq, Repr

/-- What the call does to the interest set that the kernel keeps for the descriptor, if any.
`none` is an illegal call: the kernel answers it with an error. -/
def EpollCtl.kernel (ctl : EpollCtl) : Option EpollEvents → Option (Option EpollEvents)
  | .none => if ctl.op = .EPOLL_CTL_ADD then some (some ctl.events) else .none
  | some _ =>
    match ctl.op with
    | .EPOLL_CTL_ADD => .none
    | .EPOLL_CTL_MOD => some (some ctl.events)
    | .EPOLL_CTL_DEL => some .none

/-- The interest set after a sequence of calls, if all of them were legal. -/
def EpollCtl.interest (ctls : List EpollCtl) : Option (Option EpollEvents) :=
  ctls.foldl (fun s ctl => s.bind ctl.kernel) (some .none)

/-- The interest set after a sequence of calls; an illegal one changes nothing. -/
def EpollCtl.registered (ctls : List EpollCtl) : Option EpollEvents :=
  ctls.foldl (fun s ctl => (ctl.kernel s).getD s) .none

/-- The channel after the update, and the system call issued. Only `kNew` changes the index. -/
def Epoll.update (c : Channel) : Channel × EpollCtl :=
  match c.index with
  | .kNew => ({ c with index := .kAdded }, ⟨.EPOLL_CTL_ADD, c.sockfd, c.events⟩)
  | .kAdded => (c, ⟨.EPOLL_CTL_MOD, c.sockfd, c.events⟩)
  | .kDeleted => (c, ⟨.EPOLL_CTL_DEL, c.sockfd, c.events⟩)

/-- A call that deletes leaves the descriptor unregistered, also when it is refused. -/
lemma EpollCtl.registered_del (ctls : List EpollCtl) {ctl : EpollCtl}
    (h : ctl.op = .EPOLL_CTL_DEL) : EpollCtl.registered (ctls ++ [ctl]) = .none := by
  simp only [EpollCtl.registered, List.foldl_append, List.foldl_cons, List.foldl_nil]
  cases ctls.foldl (fun s ctl => (ctl.kernel s).getD s) .none with
  | none => simp [EpollCtl.kernel, h]
  | some events => simp [EpollCtl.kernel, h]

namespace Channel

def new (sockfd : ℤ) : Channel := ⟨sockfd, .none, .none, .kNew⟩

def isWriting (c : Channel) : Bool := c.events.epollout

def enableReading (c : Channel) : Channel × EpollCtl :=
  Epoll.update { c with events := { c.events with epollin := true } }

def enableWriting (c : Channel) : Channel × EpollCtl :=
  Epoll.update { c with events := { c.events with epollout := true } }

def disableWriting (c : Channel) : Channel × EpollCtl :=
  Epoll.update { c with events := { c.events with epollout := false } }

def setIndex (c : Channel) (index : Index) : Channel := { c with index := index }

def disableAll (c : Channel) : Channel × EpollCtl := Epoll.update { c with events := .none }

@[simp] theorem update_events (c : Channel) : (Epoll.update c).1.events = c.events := by
  unfold Epoll.update
  split <;> rfl

@[simp] theorem isWriting_enableWriting (c : Channel) : c.enableWriting.1.isWriting = true := by
  simp [enableWriting, isWriting]

@[simp] theorem isWriting_disableWriting (c : Channel) :
    c.disableWriting.1.isWriting = false := by
  simp [disableWriting, isWriting]

end Channel

end RpcMuduo
