import RpcMuduo.ConnectionLoop

/-!
# Write interest tracks pending output

The buffer, the events and the index of the channel, and the interest set of the kernel stay in
step along every run of an open connection, whatever the system calls return.
-/
namespace RpcMuduo
open CInt

namespace TcpConnection

/-- `EPOLLOUT` is asked for exactly while output is buffered, the kernel was told so by legal
calls for the descriptor, and no functor was queued while output was buffered. -/
structure Tracks (c : TcpConnection) : Prop where
  events : c.channel.events = ⟨true, decide (c.outBuf.readableBytes ≠ 0), false⟩
  index : c.channel.index = .kAdded
  sockfd : c.channel.sockfd = c.sockfd
  fd : ∀ ctl ∈ c.ctls, ctl.fd = c.sockfd
  kernel : EpollCtl.interest c.ctls = some (some c.channel.events)
  completed : ∀ n ∈ c.queuedAt, n = 0

lemma interest_concat_mod {ctls : List EpollCtl} {events : EpollEvents}
    (h : EpollCtl.interest ctls = some (some events)) (fd : ℤ) (events' : EpollEvents) :
    EpollCtl.interest (ctls ++ [⟨.EPOLL_CTL_MOD, fd, events'⟩]) = some (some events') := by
  unfold EpollCtl.interest at h ⊢
  rw [List.foldl_append, h]
  rfl

lemma tracks_new (sockfd : ℤ) : (new sockfd).Tracks where
  events := by simp [new, Channel.new, Channel.enableReading, Epoll.update, EpollEvents.none,
    Buffer.new, Buffer.readableBytes]
  index := rfl
  sockfd := rfl
  fd := by simp [new, Channel.new, Channel.enableReading, Epoll.update]
  kernel := rfl
  completed := by simp [new]

section Tracks

variable {c : TcpConnection}

lemma isWriting_of_tracks (h : c.Tracks) :
    c.channel.isWriting = decide (c.outBuf.readableBytes ≠ 0) := by
  rw [Channel.isWriting, h.events]

/-- With a new buffer and the events that go with it, one `EPOLL_CTL_MOD` is enough. -/
lemma tracks_update (h : c.Tracks) (buffer : Buffer) :
    Tracks { c with
      outBuf := buffer
      channel :=
        { c.channel with events := ⟨true, decide (buffer.readableBytes ≠ 0), false⟩ }
      ctls := c.ctls ++ [⟨.EPOLL_CTL_MOD, c.channel.sockfd,
        ⟨true, decide (buffer.readableBytes ≠ 0), false⟩⟩] } where
  events := rfl
  index := h.index
  sockfd := h.sockfd
  fd := by
    intro ctl hctl
    rcases List.mem_append.mp hctl with hctl | hctl
    · exact h.fd ctl hctl
    · rw [List.mem_singleton] at hctl
      rw [hctl, h.sockfd]
  kernel := interest_concat_mod h.kernel _ _
  completed := h.completed

/-- A buffer that is empty or not as the one before needs no call. -/
lemma tracks_outBuf (h : c.Tracks) {buffer : Buffer}
    (hsame : buffer.readableBytes = 0 ↔ c.outBuf.readableBytes = 0) :
    Tracks { c with outBuf := buffer } where
  events := by
    rw [h.events]
    simp only [ne_eq, hsame]
  index := h.index
  sockfd := h.sockfd
  fd := h.fd
  kernel := h.kernel
  completed := h.completed

lemma tracks_queueInLoop (h : c.Tracks) (hempty : c.outBuf.readableBytes = 0) (f : Functor) :
    (c.queueInLoop f).Tracks where
  events := h.events
  index := h.index
  sockfd := h.sockfd
  fd := h.fd
  kernel := h.kernel
  completed := by
    intro n hn
    rcases List.mem_append.mp hn with hn | hn
    · exact h.completed n hn
    · rw [List.mem_singleton.mp hn, hempty]

lemma tracks_write (h : c.Tracks) (fd : ℤ) (data : Bytes) (ret : ℤ) :
    (c.write fd data ret).Tracks :=
  ⟨h.events, h.index, h.sockfd, h.fd, h.kernel, h.completed⟩

/-- What `substr` leaves of a message that was not written whole. -/
lemma substr_ne_nil {message rest : Bytes} {n : ℤ} (hlen : message.length < 2 ^ 63)
    (hlo : -2 ^ 31 ≤ n) (hlt : n < toInt32 message.length)
    (h : substr message (toSizeT n) message.length = some rest) : rest ≠ [] := by
  have hsize := toInt32_le (n := message.length) (by omega)
  unfold substr at h
  split at h
  · cases h
  · rename_i hpos
    have hn : 0 ≤ n := by
      by_contra hneg
      have := toSizeT_of_neg hlo (by omega)
      omega
    have hcast := toSizeT_of_nonneg hn (by omega)
    obtain rfl := Option.some.inj h
    rw [← List.length_pos_iff_ne_nil, List.length_take, List.length_drop]
    omega

lemma readableBytes_append (b : Buffer) (data : Bytes) :
    (b.append data).readableBytes = b.readableBytes + data.length := by
  rw [← Buffer.readable_length, Buffer.readable_append, List.length_append,
    Buffer.readable_length]

lemma tracks_setWriting (h : c.Tracks) {buffer : Buffer} (hbuffer : buffer.readableBytes ≠ 0) :
    { c with outBuf := buffer }.setWriting.Tracks := by
  have hupdate := tracks_update h buffer
  simp only [setWriting, Channel.enableWriting, Epoll.update, h.index, h.events]
  simpa only [ne_eq, hbuffer, not_false_eq_true, decide_true, h.index] using hupdate

lemma tracks_clearWriting (h : c.Tracks) {buffer : Buffer} (hbuffer : buffer.readableBytes = 0) :
    { c with outBuf := buffer }.clearWriting.Tracks := by
  have hupdate := tracks_update h buffer
  simp only [clearWriting, Channel.disableWriting, Epoll.update, h.index, h.events]
  simpa only [ne_eq, hbuffer, not_true_eq_false, decide_false, h.index] using hupdate

lemma tracks_bufferRest (h : c.Tracks) {message : Bytes} {n : ℤ} (hlen : message.length < 2 ^ 63)
    (hlo : -2 ^ 31 ≤ n) : (c.bufferRest message n).1.Tracks := by
  unfold bufferRest
  split
  · rename_i hlt
    split
    · exact h
    · rename_i rest hrest
      have hpos := List.length_pos_iff_ne_nil.mpr (substr_ne_nil hlen hlo hlt hrest)
      have happend : (c.outBuf.append rest).readableBytes ≠ 0 := by
        rw [readableBytes_append]
        omega
      simp only
      split
      · rename_i hwriting
        rw [isWriting_of_tracks h, decide_eq_true_eq] at hwriting
        exact tracks_outBuf h (iff_of_false happend hwriting)
      · exact tracks_setWriting h happend
  · exact h

lemma readableBytes_retrieveAll (b : Buffer) : b.retrieveAll.readableBytes = 0 := by
  simp [Buffer.retrieveAll, Buffer.readableBytes]

lemma tracks_directWrite (h : c.Tracks) (hempty : c.outBuf.readableBytes = 0) (message : Bytes)
    (ret : ℤ) : (c.directWrite message ret).Tracks := by
  have hwrite := tracks_write h c.sockfd message ret
  unfold directWrite
  simp only
  split
  · have hall := readableBytes_retrieveAll c.outBuf
    exact tracks_queueInLoop (tracks_outBuf hwrite (iff_of_true hall hempty)) hall _
  · exact hwrite

lemma tracks_sendInLoop (h : c.Tracks) {message : Bytes} (hlen : message.length < 2 ^ 63)
    (ret : ℤ) : (c.sendInLoop message ret).1.Tracks := by
  unfold sendInLoop
  split
  · rename_i hempty
    exact tracks_bufferRest (tracks_directWrite h hempty message ret) hlen (toInt32_bounds ret).1
  · exact tracks_bufferRest h hlen (by norm_num)

lemma tracks_handleWrite (h : c.Tracks) (ret : ℤ) : (c.handleWrite ret).Tracks := by
  have hwrite := tracks_write h c.channel.sockfd c.outBuf.readable ret
  unfold handleWrite
  split
  · rename_i hwriting
    rw [isWriting_of_tracks h, decide_eq_true_eq] at hwriting
    simp only
    split
    · split
      · rename_i hempty
        exact tracks_queueInLoop (tracks_clearWriting hwrite hempty) hempty _
      · rename_i hrest
        exact tracks_outBuf hwrite (iff_of_false hrest hwriting)
    · exact hwrite
  · exact h

end Tracks

end TcpConnection

namespace ConnectionLoop
open TcpConnection Run

/-- While the connection is open. -/
def OpenTracks (s : ConnectionLoop) : Prop := s.closed = none → s.conn.Tracks

/-- The messages that wait in the queue are strings as well. -/
structure InterestInv (s : ConnectionLoop) : Prop where
  tracks : OpenTracks s
  functors : s.conn.functors = []
  strings : ∀ p ∈ s.tempRuns ++ s.pendingFunctors, ∀ message, p.2 = .onMessageCB message →
    message.length < 2 ^ 63

variable {s t : ConnectionLoop}

lemma tracks_apply (h : s.conn.Tracks) (op : Op)
    (hstring : ∀ message ret, op = .send message ret → message.length < 2 ^ 63) :
    (op.apply s.conn).Tracks ∨ (op.apply s.conn).channel.index = .kDeleted := by
  cases op with
  | send message ret => exact Or.inl (tracks_sendInLoop h (hstring message ret rfl) ret)
  | write ret => exact Or.inl (tracks_handleWrite h ret)
  | read readlength reset =>
    rcases s.conn.handleRead_cases readlength reset with hread | hread
    · exact Or.inl (by rw [Op.apply, hread]; exact h)
    · exact Or.inr (by rw [Op.apply, hread]; rfl)
  | close => exact Or.inr rfl

lemma openTracks_perform (h : OpenTracks s) {op : Op}
    (hstring : ∀ message ret, op = .send message ret → message.length < 2 ^ 63) :
    OpenTracks (s.perform op) := by
  intro hclosed
  simp only [perform] at hclosed
  split at hclosed
  · cases hclosed
  · rename_i hnot
    rcases tracks_apply (h hclosed) op hstring with htracks | hdeleted
    · exact ⟨htracks.events, htracks.index, htracks.sockfd, htracks.fd, htracks.kernel,
        htracks.completed⟩
    · exact absurd ⟨hclosed, hdeleted⟩ hnot

lemma interestInv_perform (h : InterestInv s) {op : Op}
    (hstring : ∀ message ret, op = .send message ret → message.length < 2 ^ 63) :
    InterestInv (s.perform op) where
  tracks := openTracks_perform h.tracks hstring
  functors := rfl
  strings := by
    intro p hp message hmessage
    rcases List.mem_append.mp hp with hp | hp
    · exact h.strings p (List.mem_append_left _ hp) message hmessage
    · rcases mem_pendingFunctors_perform h.functors hp with hp | rfl
      · exact h.strings p (List.mem_append_right _ hp) message hmessage
      · cases hmessage

lemma interestInv_sendInLoop (h : InterestInv s) (thread : ℕ) {message : Bytes}
    (hlen : message.length < 2 ^ 63) (ret : ℤ) :
    InterestInv (s.sendInLoop thread message ret) := by
  have hperform : InterestInv (s.perform (.send message ret)) := by
    refine interestInv_perform h ?_
    intro message' ret' hop
    cases hop
    exact hlen
  exact ⟨hperform.tracks, hperform.functors, hperform.strings⟩

/-- Neither the history nor the batch that runs matters to the connection. -/
lemma InterestInv.frame (h : InterestInv s) (hconn : t.conn = s.conn)
    (hclosed : t.closed = s.closed)
    (hmem : ∀ p ∈ t.tempRuns ++ t.pendingFunctors, p ∈ s.tempRuns ++ s.pendingFunctors ∨
      ∀ message, p.2 = .onMessageCB message → message.length < 2 ^ 63) : InterestInv t where
  tracks := by
    intro hopen
    rw [hconn]
    exact h.tracks (hclosed ▸ hopen)
  functors := hconn ▸ h.functors
  strings := by
    intro p hp
    rcases hmem p hp with hp | hstring
    · exact h.strings p hp
    · exact hstring

lemma interestInv_step (h : InterestInv s) {e : Event} (hstep : step s e = some t) :
    InterestInv t := by
  cases e with
  | send message ret =>
    obtain ⟨hlen, rfl⟩ := step_send hstep
    have hnote : InterestInv (s.noteSent 0 message) := h.frame rfl rfl (fun p hp => Or.inl hp)
    exact interestInv_sendInLoop hnote 0 hlen ret
  | sendFrom thread message =>
    obtain ⟨hlen, -, rfl⟩ := step_sendFrom hstep
    refine h.frame rfl rfl ?_
    intro p hp
    rw [← List.append_assoc] at hp
    rcases List.mem_append.mp hp with hp | hp
    · exact Or.inl hp
    · rw [List.mem_singleton] at hp
      subst hp
      refine Or.inr ?_
      intro message' hmessage
      cases hmessage
      exact hlen
  | swapFunctors =>
    obtain ⟨-, rfl⟩ := step_swapFunctors hstep
    refine h.frame rfl rfl ?_
    intro p hp
    rw [List.append_nil] at hp
    exact Or.inl (List.mem_append_right _ hp)
  | runFunctor ret =>
    obtain ⟨thread, message, rest, hruns, rfl⟩ | ⟨thread, rest, hruns, rfl⟩ :=
      step_runFunctor hstep
    · have hlen : message.length < 2 ^ 63 := by
        refine h.strings (thread, .onMessageCB message) ?_ message rfl
        simp [hruns]
      have hrest : InterestInv { s with tempRuns := rest } := by
        refine h.frame rfl rfl ?_
        intro p hp
        rw [hruns]
        exact Or.inl (List.mem_cons_of_mem _ hp)
      exact interestInv_sendInLoop hrest thread hlen ret
    · refine h.frame rfl rfl ?_
      intro p hp
      rw [hruns]
      exact Or.inl (List.mem_cons_of_mem _ hp)
  | handleRead readlength reset =>
    obtain ⟨-, rfl⟩ := step_handleRead hstep
    exact interestInv_perform h (by intro _ _ hop; cases hop)
  | handleWrite ret =>
    obtain rfl := step_handleWrite hstep
    exact interestInv_perform h (by intro _ _ hop; cases hop)
  | handleClose =>
    obtain ⟨-, rfl⟩ := step_handleClose hstep
    exact interestInv_perform h (by intro _ _ hop; cases hop)

lemma interestInv_initial (sockfd : ℤ) : InterestInv (initial sockfd) where
  tracks := fun _ => tracks_new sockfd
  functors := rfl
  strings := by simp [initial]

/-- In every state that a run reaches, as long as the connection is open: write interest is
registered exactly while output is buffered. -/
theorem write_interest_tracks_output (sockfd : ℤ) (es : List Event) :
    Always step OpenTracks (initial sockfd) es :=
  always_of_guarded (fun _ h => h.tracks) (fun _ _ _ h _ hstep => interestInv_step h hstep)
    (interestInv_initial sockfd) (guarded_of_forall (G := fun _ _ => True) (fun _ _ _ => trivial) _)

end ConnectionLoop

end RpcMuduo
