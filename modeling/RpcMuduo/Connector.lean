import RpcMuduo.Run
import RpcMuduo.TcpConnection

/-!
# Connector

Each call of `connect` is an attempt, numbered from 1, and its number stands for the channel that
it makes. The results of the system calls are arguments.
-/
namespace RpcMuduo

/-- The errors of `::connect` that the switch names, and all others. -/
inductive Errno
  | EINPROGRESS
  | EINTR
  | EISCONN
  | EAGAIN
  | EADDRINUSE
  | EADDRNOTAVAIL
  | ECONNREFUSED
  | ENETUNREACH
  | EACCES
  | EPERM
  | EAFNOSUPPORT
  | EALREADY
  | EBADF
  | EFAULT
  | ENOTSOCK
  | other (errno : ℕ)
  deriving DecidableEq, Repr

/-- The arms of the switch in `Connector::connect`. -/
inductive ConnectArm
  | wait
  | give
  | close
  deriving DecidableEq, Repr

/-- `none` is the result 0. -/
def connectArm : Option Errno → ConnectArm
  | none | some .EINPROGRESS | some .EINTR | some .EISCONN => .wait
  | some .EAGAIN | some .EADDRINUSE | some .EADDRNOTAVAIL | some .ECONNREFUSED
  | some .ENETUNREACH => .give
  | some .EACCES | some .EPERM | some .EAFNOSUPPORT | some .EALREADY | some .EBADF
  | some .EFAULT | some .ENOTSOCK | some (.other _) => .close

/-- Whose channel a registration in the epoll points to. -/
inductive Registrant
  | connector (attempt : ℕ)
  | connection
  deriving DecidableEq, Repr

/-- Descriptors that the connector opened and still has, those it handed over, and what is
registered in the epoll. -/
structure Descriptors where
  own : List ℤ
  handed : List ℤ
  interest : List (ℤ × Registrant)

namespace Descriptors

variable (d : Descriptors)

def Open (fd : ℤ) : Prop := fd ∈ d.own ∨ fd ∈ d.handed

def Registered (fd : ℤ) : Prop := ∃ entry ∈ d.interest, entry.1 = fd

instance (fd : ℤ) : Decidable (d.Open fd) := inferInstanceAs (Decidable (_ ∨ _))

instance (fd : ℤ) : Decidable (d.Registered fd) := inferInstanceAs (Decidable (∃ _ ∈ _, _))

def unregister (fd : ℤ) : Descriptors :=
  { d with interest := d.interest.filter fun entry => entry.1 ≠ fd }

def register (fd : ℤ) (registrant : Registrant) : Descriptors :=
  { d with interest := (fd, registrant) :: d.interest }

/-- `epoll_ctl` for a channel of `registrant`; `none` is an error. -/
def epollCtl (ctl : EpollCtl) (registrant : Registrant) : Option Descriptors :=
  match ctl.op with
  | .EPOLL_CTL_ADD =>
    if d.Open ctl.fd ∧ ¬ d.Registered ctl.fd then some (d.register ctl.fd registrant) else none
  | .EPOLL_CTL_MOD =>
    if d.Registered ctl.fd then some ((d.unregister ctl.fd).register ctl.fd registrant) else none
  | .EPOLL_CTL_DEL => if d.Registered ctl.fd then some (d.unregister ctl.fd) else none

/-- `socket` has given `fd`, or -1. -/
def opened (fd : ℤ) : Descriptors := if 0 ≤ fd then { d with own := fd :: d.own } else d

/-- `close`, which also takes the descriptor out of the epoll. -/
def closed (fd : ℤ) : Descriptors :=
  { d.unregister fd with
    own := d.own.filter fun fd' => fd' ≠ fd
    handed := d.handed.filter fun fd' => fd' ≠ fd }

/-- The connector passes its descriptor on. -/
def pass (fd : ℤ) : Descriptors :=
  { d with own := d.own.filter fun fd' => fd' ≠ fd, handed := fd :: d.handed }

@[simp] theorem mem_unregister (fd : ℤ) (entry : ℤ × Registrant) :
    entry ∈ (d.unregister fd).interest ↔ entry ∈ d.interest ∧ entry.1 ≠ fd := by
  simp [unregister]

lemma not_registered_unregister (fd : ℤ) : ¬ (d.unregister fd).Registered fd := by
  rintro ⟨entry, hentry, rfl⟩
  exact ((d.mem_unregister _ _).mp hentry).2 rfl

end Descriptors

/-- One call of `newConnection`: the attempt, what `::connect` and `getsockopt` said of its socket,
whether the epoll was free of the descriptor, and whether the new connection could register it. -/
structure Handover where
  attempt : ℕ
  sockfd : ℤ
  result : Option Errno
  optval : ℤ
  removed : Bool
  registered : Bool
  deriving DecidableEq

/-- `sockChan` is the channel with the attempt it was made for, `attempt` the last one and
`result` what `::connect` gave for it; `active` is the channel whose report waits to be handled,
and `resets` counts the pending functors. -/
structure Connector where
  sockFd : ℤ
  sockChan : Option (ℕ × Channel)
  attempt : ℕ
  result : Option Errno
  active : Option ℕ
  resets : ℕ
  descriptors : Descriptors
  handovers : List Handover

namespace Connector

inductive Event
  | connect (fd : ℤ) (result : Option Errno)
  | stop
  | poll (mask : UInt32)
  | handleEvent (getsockopt : ℤ) (optval : ℤ)
  | resetChannel
  | closeFd (fd : ℤ)
  | unregisterFd (fd : ℤ)
  deriving DecidableEq

def initial : Connector := ⟨-1, none, 0, none, none, 0, ⟨[], [], []⟩, []⟩

section Steps

variable (s : Connector)

/-- `Epoll::update` ignores errors. -/
def update (ctl : EpollCtl) (registrant : Registrant) : Connector :=
  { s with descriptors := (s.descriptors.epollCtl ctl registrant).getD s.descriptors }

def connect (fd : ℤ) (result : Option Errno) : Connector :=
  let s := { s with
    sockFd := fd, attempt := s.attempt + 1, result := result
    descriptors := s.descriptors.opened fd }
  match connectArm result with
  | .wait =>
    let (channel, ctl) := (Channel.new fd).enableWriting
    { s with sockChan := some (s.attempt, channel) }.update ctl (.connector s.attempt)
  | .give => s
  | .close => { s with descriptors := s.descriptors.closed fd }

/-- `TcpClient::newConnection`, of which the constructor of the connection uses the epoll. -/
def newConnection (optval : ℤ) : Connector :=
  let (_, ctl) := (Channel.new s.sockFd).enableReading
  let descriptors := s.descriptors.pass s.sockFd
  { s with
    descriptors := (descriptors.epollCtl ctl .connection).getD descriptors
    handovers := s.handovers ++ [⟨s.attempt, s.sockFd, s.result, optval,
      ¬ s.descriptors.Registered s.sockFd, (descriptors.epollCtl ctl .connection).isSome⟩] }

def handleRead : Connector := s

def handleClose : Connector := s

def handleWrite (k : ℕ) (channel : Channel) (getsockopt optval : ℤ) : Connector :=
  if getsockopt < 0 then s
  else
    let (channel, ctl) := (channel.setIndex .kDeleted).disableAll
    let s := { s with sockChan := some (k, channel) }.update ctl (.connector k)
    { s with resets := s.resets + 1 }.newConnection optval

/-- `Channel::handleEvent`. -/
def handleEvent (k : ℕ) (channel : Channel) (getsockopt optval : ℤ) : Connector :=
  let s := if channel.revents.epollhup && !channel.revents.epollin then s.handleClose else s
  let s := if channel.revents.epollin then s.handleRead else s
  if channel.revents.epollout then s.handleWrite k channel getsockopt optval else s

/-- The connector waits for the result of an attempt. -/
def InProgress : Prop := ∃ p ∈ s.sockChan, p.2.index ≠ .kDeleted

instance : Decidable s.InProgress := inferInstanceAs (Decidable (∃ _ ∈ _, _))

end Steps

/-- A new descriptor is none that is open. A report points to a channel that is registered; one
for a channel that `resetChannel` destroyed before is a use after free and no step. Functors wait
until all reports are handled. The connections close the descriptors that were handed over, and
delete also what has the same number later. -/
@[grind =] def step (s : Connector) : Event → Option Connector
  | .connect fd result =>
    if ¬ s.InProgress ∧ ¬ s.descriptors.Open fd then some (s.connect fd result) else none
  | .stop => some { s with resets := s.resets + 1 }
  | .poll mask =>
    match s.sockChan with
    | none => none
    | some (k, channel) =>
      if s.active = none ∧ (channel.sockfd, .connector k) ∈ s.descriptors.interest then
        some { s with
          sockChan := some (k, { channel with revents := .ofMask mask }), active := some k }
      else none
  | .handleEvent getsockopt optval =>
    match s.sockChan with
    | none => none
    | some (k, channel) =>
      if s.active = some k then
        some { s.handleEvent k channel getsockopt optval with active := none }
      else none
  | .resetChannel =>
    if s.active = none ∧ 0 < s.resets then some { s with sockChan := none, resets := s.resets - 1 }
    else none
  | .closeFd fd =>
    if fd ∈ s.descriptors.handed then some { s with descriptors := s.descriptors.closed fd }
    else none
  | .unregisterFd fd => some { s with descriptors := s.descriptors.unregister fd }

end Connector

end RpcMuduo
