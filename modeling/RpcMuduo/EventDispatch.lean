import RpcMuduo.ConnectionLoop

/-!
# Channel::handleEvent on a connection

One report of the epoll is handled in three tests on the same mask. Between them the user may
send from the callbacks, and a channel that was closed on the way is tested to the end.
-/
namespace RpcMuduo
open Run

/-- The call of `handleClose` and the callbacks of the user and of the layer above. -/
inductive Notice
  | handleClose
  | onClose
  | closeCallback
  | onMessage
  deriving DecidableEq, Repr

/-- The tests of `handleEvent`, in their order. -/
inductive EventTest
  | epollhup
  | epollin
  | epollout
  deriving DecidableEq, Repr

/-- `user` and `closeCallback` tell whether the callbacks are set, `test` is the next one of the
tests while a report is being handled, and `notices` is history. -/
structure EventDispatch where
  loop : ConnectionLoop
  user : Bool
  closeCallback : Bool
  test : Option EventTest
  notices : List Notice

namespace EventDispatch

inductive Event
  | setUser
  | setCloseCallback
  | send (message : Bytes) (ret : ℤ)
  | sendFrom (thread : ℕ) (message : Bytes)
  | swapFunctors
  | runFunctor (ret : ℤ)
  | poll (mask : UInt32)
  | testHup
  | testIn (readlength : ℤ) (reset : Bool)
  | testOut (ret : ℤ)
  deriving DecidableEq

def initial (sockfd : ℤ) : EventDispatch :=
  ⟨ConnectionLoop.initial sockfd, false, false, none, []⟩

section Steps

variable (s : EventDispatch)

def revents : EpollEvents := s.loop.conn.channel.revents

/-- The interest set that the kernel keeps for the descriptor. -/
def registered : Option EpollEvents := EpollCtl.registered s.loop.conn.ctls

def setRevents (events : EpollEvents) : EventDispatch :=
  let conn := s.loop.conn
  { s with loop := { s.loop with conn :=
      { conn with channel := { conn.channel with revents := events } } } }

/-- The part of `TcpConnection::handleClose` that calls back. -/
def closeNotices : List Notice :=
  .handleClose :: (if s.user then [.onClose] else []) ++
    if s.closeCallback then [.closeCallback] else []

/-- What `TcpConnection::handleRead` calls. -/
def readNotices (readlength : ℤ) (reset : Bool) : List Notice :=
  if s.loop.conn.channel.sockfd < 0 then []
  else if readlength > 0 then [.onMessage]
  else if readlength = 0 then s.closeNotices
  else if reset then s.closeNotices
  else []

def handleClose : EventDispatch :=
  { s with loop := s.loop.perform .close, notices := s.notices ++ s.closeNotices }

def handleRead (readlength : ℤ) (reset : Bool) : EventDispatch :=
  { s with
    loop := s.loop.perform (.read readlength reset)
    notices := s.notices ++ s.readNotices readlength reset }

def handleWrite (ret : ℤ) : EventDispatch := { s with loop := s.loop.perform (.write ret) }

end Steps

/-- The loop polls and runs functors outside of `handleEvent`, and sends may come at any moment.
A report names a registered descriptor, with any mask. Without a user `onMessage` would be a call
through a null pointer. -/
@[grind =] def step (s : EventDispatch) : Event → Option EventDispatch
  | .setUser => some { s with user := true }
  | .setCloseCallback => some { s with closeCallback := true }
  | .send message ret =>
    (s.loop.step (.send message ret)).map fun loop => { s with loop := loop }
  | .sendFrom thread message =>
    (s.loop.step (.sendFrom thread message)).map fun loop => { s with loop := loop }
  | .swapFunctors =>
    if s.test = none then
      (s.loop.step .swapFunctors).map fun loop => { s with loop := loop }
    else none
  | .runFunctor ret =>
    if s.test = none then
      (s.loop.step (.runFunctor ret)).map fun loop => { s with loop := loop }
    else none
  | .poll mask =>
    if s.test = none ∧ s.loop.tempRuns = [] ∧ s.registered ≠ none then
      some { s.setRevents (.ofMask mask) with test := some .epollhup }
    else none
  | .testHup =>
    if s.test = some .epollhup then
      some { if s.revents.epollhup && !s.revents.epollin then s.handleClose else s with
        test := some .epollin }
    else none
  | .testIn readlength reset =>
    if s.test = some .epollin ∧
        (s.revents.epollin → .onMessage ∈ s.readNotices readlength reset → s.user) then
      some { if s.revents.epollin then s.handleRead readlength reset else s with
        test := some .epollout }
    else none
  | .testOut ret =>
    if s.test = some .epollout then
      some { if s.revents.epollout then s.handleWrite ret else s with test := none }
    else none

/-- The event of the connection's loop that a send or a functor is. -/
def loopEvent : Event → Option ConnectionLoop.Event
  | .send message ret => some (.send message ret)
  | .sendFrom thread message => some (.sendFrom thread message)
  | .swapFunctors => some .swapFunctors
  | .runFunctor ret => some (.runFunctor ret)
  | _ => none

section Closed

/-- A closed connection as the report that is being handled, `events`, still sees it. -/
structure Closed (events : EpollEvents) (c : TcpConnection) : Prop where
  index : c.channel.index = .kDeleted
  registered : EpollCtl.registered c.ctls = none
  revents : c.channel.revents = events

variable {events : EpollEvents} {c : TcpConnection}

/-- Updating a deleted channel deletes it again, whatever it is to be registered for. -/
lemma update_deleted {channel : Channel} (h : channel.index = .kDeleted) :
    Epoll.update channel = (channel, ⟨.EPOLL_CTL_DEL, channel.sockfd, channel.events⟩) := by
  unfold Epoll.update
  rw [h]

lemma closed_setWriting (h : Closed events c) : Closed events c.setWriting := by
  have hupdate : c.channel.enableWriting = _ := update_deleted h.index
  unfold TcpConnection.setWriting
  rw [hupdate]
  exact ⟨h.index, EpollCtl.registered_del c.ctls rfl, h.revents⟩

lemma closed_clearWriting (h : Closed events c) : Closed events c.clearWriting := by
  have hupdate : c.channel.disableWriting = _ := update_deleted h.index
  unfold TcpConnection.clearWriting
  rw [hupdate]
  exact ⟨h.index, EpollCtl.registered_del c.ctls rfl, h.revents⟩

/-- Neither a send nor a drain brings a closed connection back. -/
lemma kept_closed (events : EpollEvents) : TcpConnection.Kept (Closed events) where
  write := fun _ _ _ _ h => ⟨h.index, h.registered, h.revents⟩
  outBuf := fun _ _ h => ⟨h.index, h.registered, h.revents⟩
  setWriting := fun _ h => closed_setWriting h
  clearWriting := fun _ h => closed_clearWriting h
  queueInLoop := fun _ _ h => ⟨h.index, h.registered, h.revents⟩

lemma closed_handleClose (c : TcpConnection) : Closed c.channel.revents c.handleClose where
  index := rfl
  registered := EpollCtl.registered_del c.ctls rfl
  revents := rfl

lemma closed_perform {loop : ConnectionLoop} {op : ConnectionLoop.Op}
    (h : Closed events (op.apply loop.conn)) : Closed events (loop.perform op).conn :=
  ⟨h.index, h.registered, h.revents⟩

/-- Sends and functors leave a closed connection closed. -/
lemma closed_loop {loop loop' : ConnectionLoop} {e : Event} {e' : ConnectionLoop.Event}
    (hevent : loopEvent e = some e') (hstep : loop.step e' = some loop')
    (h : Closed events loop.conn) : Closed events loop'.conn := by
  rcases ConnectionLoop.step_conn hstep with ⟨-, hconn, -⟩ | ⟨op, hop, -, hconn, -⟩
  · exact hconn ▸ h
  · have hsend : ∃ message ret, op = .send message ret := by
      cases e with
      | send message ret =>
        obtain rfl := Option.some.inj hevent
        exact ⟨message, ret, (Option.some.inj hop).symm⟩
      | runFunctor ret =>
        obtain rfl := Option.some.inj hevent
        simp only [ConnectionLoop.op] at hop
        split at hop
        · rename_i message _ _
          exact ⟨message, ret, (Option.some.inj hop).symm⟩
        · cases hop
      | sendFrom thread message =>
        obtain rfl := Option.some.inj hevent
        cases hop
      | swapFunctors =>
        obtain rfl := Option.some.inj hevent
        cases hop
      | _ => cases hevent
    obtain ⟨message, ret, rfl⟩ := hsend
    rw [hconn]
    exact closed_perform ((kept_closed events).sendInLoop h message ret)

end Closed

/-- One notice may come before another: only messages repeat, and none follows the close. -/
def MayPrecede (earlier later : Notice) : Prop :=
  earlier ≠ if later = .onMessage then .handleClose else later

instance : DecidableRel MayPrecede := fun _ _ => inferInstanceAs (Decidable (_ ≠ _))

/-- The close is reported once, and no message after it. -/
structure CloseOnce (notices : List Notice) : Prop where
  once : ∀ notice ≠ .onMessage, notices.count notice ≤ 1
  last : ∀ pre post, notices = pre ++ .handleClose :: post → .onMessage ∉ post

/-- After the close the descriptor is not registered, and what is left of the report that was
being handled then contains no reading. -/
structure DispatchInv (s : EventDispatch) : Prop where
  ordered : s.notices.Pairwise MayPrecede
  reported : .handleClose ∉ s.notices → ∀ notice ∈ s.notices, notice = .onMessage
  closed : .handleClose ∈ s.notices → Closed s.revents s.loop.conn ∧
    s.test ≠ some .epollhup ∧ (s.test = some .epollin → s.revents.epollin = false)

section Invariant

variable {s t : EventDispatch}

lemma closeOnce_of_pairwise {notices : List Notice} (h : notices.Pairwise MayPrecede) :
    CloseOnce notices where
  once := by
    intro notice hne
    by_contra hmany
    have htwice : [notice, notice].Sublist notices := by
      rw [← List.duplicate_iff_sublist, List.duplicate_iff_two_le_count]
      omega
    have hself := List.rel_of_pairwise_cons (h.sublist htwice) List.mem_cons_self
    exact hself (if_neg hne).symm
  last := by
    rintro pre post rfl hmessage
    exact List.rel_of_pairwise_cons (List.pairwise_append.mp h).2.1 hmessage rfl

lemma pairwise_closeNotices (s : EventDispatch) : s.closeNotices.Pairwise MayPrecede := by
  unfold closeNotices
  cases s.user <;> cases s.closeCallback <;> decide

lemma mem_closeNotices (s : EventDispatch) : .handleClose ∈ s.closeNotices :=
  List.mem_cons_self

lemma onMessage_notMem_closeNotices (s : EventDispatch) : .onMessage ∉ s.closeNotices := by
  unfold closeNotices
  cases s.user <;> cases s.closeCallback <;> decide

/-- What a step leaves as it is when nothing is called. -/
lemma inv_congr (h : DispatchInv s) (hnotices : t.notices = s.notices)
    (hclosed : .handleClose ∈ s.notices → Closed t.revents t.loop.conn ∧
      t.test ≠ some .epollhup ∧ (t.test = some .epollin → t.revents.epollin = false)) :
    DispatchInv t where
  ordered := hnotices ▸ h.ordered
  reported := hnotices ▸ h.reported
  closed := hnotices ▸ hclosed

/-- The first close of a connection. -/
lemma inv_handleClose (h : DispatchInv s) (hopen : .handleClose ∉ s.notices)
    (hnotices : t.notices = s.notices ++ s.closeNotices)
    (hconn : t.loop.conn = (s.loop.perform .close).conn) (htest : t.test ≠ some .epollhup)
    (hread : t.test = some .epollin → s.revents.epollin = false) : DispatchInv t := by
  have hrevents : t.revents = s.revents := by
    unfold revents
    rw [hconn]
    rfl
  refine ⟨?_, ?_, ?_⟩
  · rw [hnotices, List.pairwise_append]
    refine ⟨h.ordered, pairwise_closeNotices s, ?_⟩
    intro earlier hearlier later hlater heq
    obtain rfl := h.reported hopen earlier hearlier
    by_cases hmessage : later = .onMessage
    · exact onMessage_notMem_closeNotices s (hmessage ▸ hlater)
    · rw [if_neg hmessage] at heq
      exact hmessage heq.symm
  · intro hnot
    rw [hnotices] at hnot
    exact absurd (List.mem_append_right _ (mem_closeNotices s)) hnot
  · intro _
    rw [hrevents, hconn]
    exact ⟨closed_perform (closed_handleClose s.loop.conn), htest, hread⟩

/-- A message on an open connection. -/
lemma inv_onMessage (h : DispatchInv s) (hopen : .handleClose ∉ s.notices)
    (hnotices : t.notices = s.notices ++ [.onMessage]) : DispatchInv t := by
  refine ⟨?_, ?_, ?_⟩
  · rw [hnotices, List.pairwise_append]
    refine ⟨h.ordered, List.pairwise_singleton _ _, ?_⟩
    intro earlier hearlier later hlater heq
    obtain rfl := List.mem_singleton.mp hlater
    rw [if_pos rfl] at heq
    exact hopen (heq ▸ hearlier)
  · intro _ notice hnotice
    rw [hnotices, List.mem_append, List.mem_singleton] at hnotice
    rcases hnotice with hnotice | hnotice
    · exact h.reported hopen notice hnotice
    · exact hnotice
  · intro hclose
    simp [hnotices, hopen] at hclose

/-- A read calls nothing, or hands over a message, or closes. -/
lemma handleRead_cases (s : EventDispatch) (readlength : ℤ) (reset : Bool) :
    s.readNotices readlength reset = [] ∨ s.readNotices readlength reset = [.onMessage] ∨
      s.readNotices readlength reset = s.closeNotices ∧
        s.loop.conn.handleRead readlength reset = s.loop.conn.handleClose := by
  unfold readNotices TcpConnection.handleRead
  split_ifs <;> simp

lemma inv_testIn (h : DispatchInv s) {readlength : ℤ} {reset : Bool}
    (htest : s.test = some .epollin) :
    DispatchInv { if s.revents.epollin then s.handleRead readlength reset else s with
      test := some .epollout } := by
  by_cases hin : s.revents.epollin
  · have hopen : .handleClose ∉ s.notices := by
      intro hclose
      simp [(h.closed hclose).2.2 htest] at hin
    rw [if_pos hin]
    rcases handleRead_cases s readlength reset with hnone | hmessage | ⟨hclose, hconn⟩
    · refine inv_congr h ?_ fun hclose => absurd hclose hopen
      exact (congrArg (s.notices ++ ·) hnone).trans (List.append_nil _)
    · exact inv_onMessage h hopen (congrArg (s.notices ++ ·) hmessage)
    · have hperform : (s.loop.perform (.read readlength reset)).conn =
          (s.loop.perform .close).conn := by
        simp only [ConnectionLoop.perform, ConnectionLoop.Op.apply, hconn]
      exact inv_handleClose h hopen (congrArg (s.notices ++ ·) hclose) hperform (by simp) (by simp)
  · rw [if_neg hin]
    exact inv_congr h rfl fun hclose => ⟨(h.closed hclose).1, by simp, by simp⟩

lemma inv_loop (h : DispatchInv s) {e : Event} {e' : ConnectionLoop.Event} {loop : ConnectionLoop}
    (hevent : loopEvent e = some e') (hloop : s.loop.step e' = some loop) :
    DispatchInv { s with loop := loop } := by
  refine inv_congr h rfl ?_
  intro hclose
  obtain ⟨hclosed, htest⟩ := h.closed hclose
  have hnext := closed_loop hevent hloop hclosed
  have hrevents : EventDispatch.revents { s with loop := loop } = s.revents := hnext.revents
  rw [hrevents]
  exact ⟨hnext, htest⟩

lemma inv_step {e : Event} (h : DispatchInv s) (hstep : step s e = some t) : DispatchInv t := by
  cases e with
  | setUser =>
    obtain rfl := Option.some.inj hstep
    exact inv_congr h rfl h.closed
  | setCloseCallback =>
    obtain rfl := Option.some.inj hstep
    exact inv_congr h rfl h.closed
  | send message ret =>
    obtain ⟨loop, hloop, rfl⟩ := Option.map_eq_some_iff.mp hstep
    exact inv_loop (e := .send message ret) h rfl hloop
  | sendFrom thread message =>
    obtain ⟨loop, hloop, rfl⟩ := Option.map_eq_some_iff.mp hstep
    exact inv_loop (e := .sendFrom thread message) h rfl hloop
  | swapFunctors =>
    obtain ⟨-, hstep⟩ := Option.ite_none_right_eq_some.mp hstep
    obtain ⟨loop, hloop, rfl⟩ := Option.map_eq_some_iff.mp hstep
    exact inv_loop (e := .swapFunctors) h rfl hloop
  | runFunctor ret =>
    obtain ⟨-, hstep⟩ := Option.ite_none_right_eq_some.mp hstep
    obtain ⟨loop, hloop, rfl⟩ := Option.map_eq_some_iff.mp hstep
    exact inv_loop (e := .runFunctor ret) h rfl hloop
  | poll mask =>
    obtain ⟨⟨-, -, hregistered⟩, hstep⟩ := Option.ite_none_right_eq_some.mp hstep
    obtain rfl := Option.some.inj hstep
    exact inv_congr h rfl fun hclose => absurd (h.closed hclose).1.registered hregistered
  | testHup =>
    obtain ⟨htest, hstep⟩ := Option.ite_none_right_eq_some.mp hstep
    obtain rfl := Option.some.inj hstep
    have hopen : .handleClose ∉ s.notices := fun hclose => (h.closed hclose).2.1 htest
    by_cases hhup : (s.revents.epollhup && !s.revents.epollin) = true
    · rw [if_pos hhup]
      simp only [Bool.and_eq_true, Bool.not_eq_true'] at hhup
      exact inv_handleClose h hopen rfl rfl (by simp) fun _ => hhup.2
    · rw [if_neg hhup]
      exact inv_congr h rfl fun hclose => absurd hclose hopen
  | testIn readlength reset =>
    obtain ⟨⟨htest, -⟩, hstep⟩ := Option.ite_none_right_eq_some.mp hstep
    obtain rfl := Option.some.inj hstep
    exact inv_testIn h htest
  | testOut ret =>
    obtain ⟨-, hstep⟩ := Option.ite_none_right_eq_some.mp hstep
    obtain rfl := Option.some.inj hstep
    by_cases hout : s.revents.epollout
    · rw [if_pos hout]
      refine inv_congr h rfl ?_
      intro hclose
      have hnext : Closed s.revents (s.loop.perform (.write ret)).conn :=
        closed_perform ((kept_closed s.revents).handleWrite (h.closed hclose).1 ret)
      have hrevents : (s.handleWrite ret).revents = s.revents := hnext.revents
      exact ⟨hrevents ▸ hnext, by simp, by simp⟩
    · rw [if_neg hout]
      exact inv_congr h rfl fun hclose => ⟨(h.closed hclose).1, by simp, by simp⟩

lemma inv_initial (sockfd : ℤ) : DispatchInv (initial sockfd) :=
  ⟨List.Pairwise.nil, by simp [initial], by simp [initial]⟩

end Invariant

/-- A message, then a hang-up while output may be written; what the user sends from `onClose` is
buffered and written for the same report. -/
def hangUp : List Event :=
  [.setUser, .setCloseCallback, .poll 0x005, .testHup, .testIn 3 false, .testOut 0,
    .poll 0x014, .testHup, .send [120, 121] 0, .testIn 7 false, .testOut 2]

lemma hangUp_isSome : (run step (initial 5) hangUp).isSome = true := by decide +kernel

example : ((run step (initial 5) hangUp).get hangUp_isSome).notices =
    [.onMessage, .handleClose, .onClose, .closeCallback] := by decide +kernel

end EventDispatch

end RpcMuduo
