import RpcMuduo.Connector

/-!
# What the connector hands over

`Connector::handleWrite` asks for `SO_ERROR` and does not look at it, so a connection that was
refused is handed over like one that was established.
-/
namespace RpcMuduo.Connector
open Run

/-- Only sockets whose attempt completed without error are handed over, once for each attempt and
after the epoll has let go of them, so that the new connection can register. -/
structure Established (handovers : List Handover) : Prop where
  completed : ∀ h ∈ handovers, connectArm h.result = .wait ∧ h.optval = 0
  once : (handovers.map Handover.attempt).Nodup
  removed : ∀ h ∈ handovers, h.removed = true
  registered : ∀ h ∈ handovers, h.registered = true

def HandsOver (s : Connector) : Prop := Established s.handovers

/-- A socket that is reported writable, and whose `SO_ERROR` can be read, has none. -/
def NoPendingError (s : Connector) : Event → Prop
  | .handleEvent getsockopt optval =>
    ∀ p ∈ s.sockChan, p.2.revents.epollout → 0 ≤ getsockopt → optval = 0
  | _ => True

/-- A channel whose attempt is in progress is that of the last attempt, on its socket. -/
structure Pending (s : Connector) (k : ℕ) (channel : Channel) : Prop where
  index : channel.index = .kAdded
  last : k = s.attempt
  sockfd : channel.sockfd = s.sockFd
  arm : connectArm s.result = .wait
  fresh : s.attempt ∉ s.handovers.map Handover.attempt
  interest : ∀ fd, (fd, .connector k) ∈ s.descriptors.interest → fd = s.sockFd

/-- One that was handed over is not registered any more. -/
structure Finished (s : Connector) (k : ℕ) (channel : Channel) : Prop where
  index : channel.index = .kDeleted
  interest : ∀ fd, (fd, .connector k) ∉ s.descriptors.interest

/-- A channel of the connector is registered for a descriptor that the connector owns, and a report
is handled while its attempt is in progress. -/
structure ConnectorInv (s : Connector) : Prop where
  disjoint : ∀ fd ∈ s.descriptors.own, fd ∉ s.descriptors.handed
  own : ∀ fd k, (fd, .connector k) ∈ s.descriptors.interest →
    fd ∈ s.descriptors.own ∧ k ≤ s.attempt
  channel : ∀ k channel, s.sockChan = some (k, channel) →
    k ≤ s.attempt ∧ (Pending s k channel ∨ Finished s k channel)
  active : ∀ k, s.active = some k →
    ∃ channel, s.sockChan = some (k, channel) ∧ Pending s k channel ∧ s.sockFd ∈ s.descriptors.own
  handed : ∀ h ∈ s.handovers, h.attempt ≤ s.attempt

section Descriptors

variable (d : Descriptors)

/-- Deleting ends with the descriptor unregistered, also where there was nothing to delete. -/
lemma epollCtl_del (ctl : EpollCtl) (h : ctl.op = .EPOLL_CTL_DEL) (registrant : Registrant) :
    (d.epollCtl ctl registrant).getD d = d.unregister ctl.fd := by
  simp only [Descriptors.epollCtl, h]
  by_cases hregistered : d.Registered ctl.fd
  · rw [if_pos hregistered, Option.getD_some]
  · rw [if_neg hregistered, Option.getD_none]
    have hall : ∀ entry ∈ d.interest, decide (entry.1 ≠ ctl.fd) = true := by
      intro entry hentry
      exact decide_eq_true fun heq => hregistered ⟨entry, hentry, heq⟩
    simp only [Descriptors.unregister, List.filter_eq_self.mpr hall]

lemma epollCtl_add (ctl : EpollCtl) (h : ctl.op = .EPOLL_CTL_ADD) (registrant : Registrant) :
    d.epollCtl ctl registrant =
      if d.Open ctl.fd ∧ ¬ d.Registered ctl.fd then some (d.register ctl.fd registrant)
      else none := by
  simp only [Descriptors.epollCtl, h]

/-- What a call that adds leaves: the connector's descriptors as they were, and at most one new
registration, of a descriptor that is open. -/
lemma getD_epollCtl_add {ctl : EpollCtl} (h : ctl.op = .EPOLL_CTL_ADD) (registrant : Registrant) :
    (d.epollCtl ctl registrant).getD d = d ∨
      d.Open ctl.fd ∧ (d.epollCtl ctl registrant).getD d = d.register ctl.fd registrant := by
  rw [epollCtl_add d ctl h]
  split_ifs with hlegal
  · exact Or.inr ⟨hlegal.1, rfl⟩
  · exact Or.inl rfl

lemma own_opened {fd fd' : ℤ} (h : fd' ∈ (d.opened fd).own) : fd' ∈ d.own ∨ fd' = fd := by
  unfold Descriptors.opened at h
  split_ifs at h with hfd
  · exact (List.mem_cons.mp h).symm
  · exact Or.inl h

lemma mem_own_opened {fd fd' : ℤ} (h : fd' ∈ d.own) : fd' ∈ (d.opened fd).own := by
  unfold Descriptors.opened
  split_ifs with hfd
  · exact List.mem_cons_of_mem _ h
  · exact h

@[simp] lemma handed_opened (fd : ℤ) : (d.opened fd).handed = d.handed := by
  unfold Descriptors.opened
  split_ifs <;> rfl

@[simp] lemma interest_opened (fd : ℤ) : (d.opened fd).interest = d.interest := by
  unfold Descriptors.opened
  split_ifs <;> rfl

end Descriptors

section Steps

variable {s t : Connector}

lemma disableAll_deleted (channel : Channel) : (channel.setIndex .kDeleted).disableAll =
    ({ channel with index := .kDeleted, events := .none },
      ⟨.EPOLL_CTL_DEL, channel.sockfd, .none⟩) := rfl

lemma enableReading_new (fd : ℤ) : (Channel.new fd).enableReading =
    (⟨fd, ⟨true, false, false⟩, .none, .kAdded⟩,
      ⟨.EPOLL_CTL_ADD, fd, ⟨true, false, false⟩⟩) := rfl

/-- `newConnection` on a descriptor that is not registered. -/
lemma newConnection_of_unregistered (h : ¬ s.descriptors.Registered s.sockFd) (optval : ℤ) :
    s.newConnection optval =
      { s with
        descriptors := (s.descriptors.pass s.sockFd).register s.sockFd .connection
        handovers := s.handovers ++ [⟨s.attempt, s.sockFd, s.result, optval, true, true⟩] } := by
  have hopen : (s.descriptors.pass s.sockFd).Open s.sockFd := Or.inr List.mem_cons_self
  have hfree : ¬ (s.descriptors.pass s.sockFd).Registered s.sockFd := h
  have hadd := epollCtl_add (s.descriptors.pass s.sockFd)
    ⟨.EPOLL_CTL_ADD, s.sockFd, ⟨true, false, false⟩⟩ rfl .connection
  rw [if_pos ⟨hopen, hfree⟩] at hadd
  simp only [newConnection, enableReading_new, hadd, Option.getD_some, Option.isSome_some, h,
    not_false_eq_true, decide_true]

/-- A handover, written out: nothing can go wrong with the epoll. -/
lemma handleWrite_of_sockfd {k : ℕ} {channel : Channel} (hsockfd : channel.sockfd = s.sockFd)
    {getsockopt : ℤ} (h : 0 ≤ getsockopt) (optval : ℤ) :
    s.handleWrite k channel getsockopt optval =
      { s with
        sockChan := some (k, { channel with index := .kDeleted, events := .none })
        resets := s.resets + 1
        descriptors := ((s.descriptors.unregister s.sockFd).pass s.sockFd).register s.sockFd
          .connection
        handovers := s.handovers ++ [⟨s.attempt, s.sockFd, s.result, optval, true, true⟩] } := by
  have hdel := epollCtl_del s.descriptors ⟨.EPOLL_CTL_DEL, channel.sockfd, .none⟩ rfl
    (.connector k)
  rw [hsockfd] at hdel
  simp only [handleWrite, if_neg (not_lt.mpr h), disableAll_deleted, update, hsockfd, hdel]
  rw [newConnection_of_unregistered (s.descriptors.not_registered_unregister s.sockFd)]

lemma handleEvent_eq (k : ℕ) (channel : Channel) (getsockopt optval : ℤ) :
    s.handleEvent k channel getsockopt optval =
      if channel.revents.epollout ∧ 0 ≤ getsockopt then
        s.handleWrite k channel getsockopt optval else s := by
  simp only [handleEvent, handleRead, handleClose, ite_self]
  by_cases hout : channel.revents.epollout
  · by_cases hget : 0 ≤ getsockopt
    · simp [hout, hget]
    · simp [hout, hget, handleWrite, not_le.mp hget]
  · simp [hout]

end Steps

section Invariant

variable {s t : Connector}

/-- A handover keeps the promise exactly when no error is pending on the socket. -/
lemma established_concat {h : Handover} (hs : HandsOver s) (hp : connectArm h.result = .wait)
    (hfresh : h.attempt ∉ s.handovers.map Handover.attempt) (hremoved : h.removed = true)
    (hregistered : h.registered = true) :
    Established (s.handovers ++ [h]) ↔ h.optval = 0 := by
  constructor
  · intro ht
    exact (ht.completed h (by simp)).2
  · intro hzero
    refine ⟨?_, ?_, ?_, ?_⟩
    · exact List.forall_mem_append.mpr ⟨hs.completed, by simpa using ⟨hp, hzero⟩⟩
    · rw [List.map_append, List.map_singleton]
      refine List.nodup_append'.mpr ⟨hs.once, List.nodup_singleton _, ?_⟩
      exact List.disjoint_singleton.mpr hfresh
    · exact List.forall_mem_append.mpr ⟨hs.removed, by simpa using hremoved⟩
    · exact List.forall_mem_append.mpr ⟨hs.registered, by simpa using hregistered⟩

lemma inv_initial : ConnectorInv initial where
  disjoint := by simp [initial]
  own := by simp [initial]
  channel := by simp [initial]
  active := by simp [initial]
  handed := by simp [initial]

lemma Pending.mono {k : ℕ} {channel : Channel} (h : Pending s k channel) {d : Descriptors}
    (hinterest : ∀ entry ∈ d.interest, entry ∈ s.descriptors.interest) :
    Pending { s with descriptors := d } k channel :=
  { h with interest := fun fd hentry => h.interest fd (hinterest _ hentry) }

/-- A step that only takes away: registrations, and descriptors that are registered no more and of
which no report waits. -/
lemma inv_descriptors (h : ConnectorInv s) {d : Descriptors}
    (hinterest : ∀ entry ∈ d.interest, entry ∈ s.descriptors.interest ∧
      (entry.1 ∈ s.descriptors.own → entry.1 ∈ d.own))
    (hown : ∀ fd ∈ d.own, fd ∈ s.descriptors.own)
    (hhanded : ∀ fd ∈ d.handed, fd ∈ s.descriptors.handed)
    (hsockFd : s.active ≠ none → s.sockFd ∈ s.descriptors.own → s.sockFd ∈ d.own) :
    ConnectorInv { s with descriptors := d } where
  disjoint := fun fd hfd hfd' => h.disjoint fd (hown fd hfd) (hhanded fd hfd')
  own := by
    intro fd k hentry
    obtain ⟨hentry, hfd⟩ := hinterest _ hentry
    exact ⟨hfd (h.own fd k hentry).1, (h.own fd k hentry).2⟩
  channel := by
    intro k channel hchannel
    obtain ⟨hk, hpending | hfinished⟩ := h.channel k channel hchannel
    · exact ⟨hk, Or.inl (hpending.mono fun entry hentry => (hinterest entry hentry).1)⟩
    · exact ⟨hk, Or.inr ⟨hfinished.index, fun fd hentry =>
        hfinished.interest fd (hinterest _ hentry).1⟩⟩
  active := by
    intro k hk
    have hactive : s.active ≠ none := Option.ne_none_iff_exists'.mpr ⟨k, hk⟩
    obtain ⟨channel, hchannel, hpending, hfd⟩ := h.active k hk
    exact ⟨channel, hchannel, hpending.mono fun entry hentry => (hinterest entry hentry).1,
      hsockFd hactive hfd⟩
  handed := h.handed

lemma inv_unregisterFd (h : ConnectorInv s) (fd : ℤ) :
    ConnectorInv { s with descriptors := s.descriptors.unregister fd } :=
  inv_descriptors h
    (fun _ hentry => ⟨((s.descriptors.mem_unregister _ _).mp hentry).1, fun hfd => hfd⟩)
    (fun _ hfd => hfd) (fun _ hfd => hfd) fun _ hfd => hfd

lemma inv_closed (h : ConnectorInv s) {fd : ℤ} (hne : s.active ≠ none → s.sockFd ≠ fd) :
    ConnectorInv { s with descriptors := s.descriptors.closed fd } := by
  refine inv_descriptors h ?_ (fun _ hfd => (List.mem_filter.mp hfd).1)
    (fun _ hfd => (List.mem_filter.mp hfd).1) ?_
  · intro entry hentry
    obtain ⟨hentry, hfd⟩ := (s.descriptors.mem_unregister _ _).mp hentry
    exact ⟨hentry, fun hown => List.mem_filter.mpr ⟨hown, decide_eq_true hfd⟩⟩
  · intro hactive hfd
    exact List.mem_filter.mpr ⟨hfd, decide_eq_true (hne hactive)⟩

lemma inv_closeFd (h : ConnectorInv s) {fd : ℤ} (hfd : fd ∈ s.descriptors.handed) :
    ConnectorInv { s with descriptors := s.descriptors.closed fd } := by
  refine inv_closed h ?_
  rintro hactive rfl
  obtain ⟨k, hk⟩ := Option.ne_none_iff_exists'.mp hactive
  obtain ⟨-, -, -, hown⟩ := h.active k hk
  exact h.disjoint _ hown hfd

lemma inv_resetChannel (h : ConnectorInv s) (hactive : s.active = none) :
    ConnectorInv { s with sockChan := none, resets := s.resets - 1 } where
  disjoint := h.disjoint
  own := h.own
  channel := by simp
  active := by simp [hactive]
  handed := h.handed

lemma inv_poll (h : ConnectorInv s) {k : ℕ} {channel : Channel}
    (hchannel : s.sockChan = some (k, channel))
    (hentry : (channel.sockfd, .connector k) ∈ s.descriptors.interest) (events : EpollEvents) :
    ConnectorInv { s with
      sockChan := some (k, { channel with revents := events }), active := some k } := by
  obtain ⟨hk, hpending | hfinished⟩ := h.channel k channel hchannel
  · have hnext : Pending { s with
        sockChan := some (k, { channel with revents := events }), active := some k } k
        { channel with revents := events } := { hpending with }
    refine ⟨h.disjoint, h.own, ?_, ?_, h.handed⟩
    · rintro k' channel' heq
      obtain ⟨rfl, rfl⟩ := Prod.mk.injEq .. ▸ Option.some.inj heq
      exact ⟨hk, Or.inl hnext⟩
    · rintro k' heq
      obtain rfl := Option.some.inj heq
      exact ⟨_, rfl, hnext, hpending.sockfd ▸ (h.own _ _ hentry).1⟩
  · exact absurd hentry (hfinished.interest _)

/-- Between attempts the channel, if there is one, was handed over, and no report waits. -/
lemma finished_of_idle (h : ConnectorInv s) (hidle : ¬ s.InProgress) :
    s.active = none ∧ ∀ k channel, s.sockChan = some (k, channel) →
      k ≤ s.attempt ∧ Finished s k channel := by
  have hnot : ∀ k channel, s.sockChan = some (k, channel) → ¬ Pending s k channel := by
    intro k channel hchannel hpending
    refine hidle ⟨(k, channel), hchannel, ?_⟩
    rw [hpending.index]
    decide
  constructor
  · by_contra hactive
    obtain ⟨k, hk⟩ := Option.ne_none_iff_exists'.mp hactive
    obtain ⟨channel, hchannel, hpending, -⟩ := h.active k hk
    exact hnot k channel hchannel hpending
  · intro k channel hchannel
    obtain ⟨hk, hpending | hfinished⟩ := h.channel k channel hchannel
    · exact absurd hpending (hnot k channel hchannel)
    · exact ⟨hk, hfinished⟩

/-- An attempt on a new descriptor, before the switch. -/
lemma inv_opened (h : ConnectorInv s) (hidle : ¬ s.InProgress) {fd : ℤ}
    (hfresh : ¬ s.descriptors.Open fd) (result : Option Errno) :
    ConnectorInv { s with
      sockFd := fd, attempt := s.attempt + 1, result := result
      descriptors := s.descriptors.opened fd } := by
  obtain ⟨hactive, hfinished⟩ := finished_of_idle h hidle
  constructor
  · intro fd' hfd' hhanded
    simp only [handed_opened] at hhanded
    rcases own_opened _ hfd' with hown | rfl
    · exact h.disjoint fd' hown hhanded
    · exact hfresh (Or.inr hhanded)
  · intro fd' k hentry
    simp only [interest_opened] at hentry
    obtain ⟨hown, hk⟩ := h.own fd' k hentry
    exact ⟨mem_own_opened _ hown, Nat.le_succ_of_le hk⟩
  · intro k channel hchannel
    obtain ⟨hk, hdone⟩ := hfinished k channel hchannel
    exact ⟨Nat.le_succ_of_le hk, Or.inr ⟨hdone.index, by simpa using hdone.interest⟩⟩
  · intro k hk
    exact absurd (hactive ▸ hk) (by simp)
  · intro h' hh'
    exact Nat.le_succ_of_le (h.handed h' hh')

/-- The channel of a new attempt: registered, unless the epoll refused. -/
lemma inv_wait (h : ConnectorInv s) (hactive : s.active = none)
    (harm : connectArm s.result = .wait)
    (hinterest : ∀ fd, (fd, .connector s.attempt) ∉ s.descriptors.interest)
    (hfresh : s.attempt ∉ s.handovers.map Handover.attempt)
    (hhanded : s.sockFd ∉ s.descriptors.handed) {channel : Channel} {ctl : EpollCtl}
    (hindex : channel.index = .kAdded) (hsockfd : channel.sockfd = s.sockFd)
    (hop : ctl.op = .EPOLL_CTL_ADD) (hfd : ctl.fd = s.sockFd) :
    ConnectorInv
      ({ s with sockChan := some (s.attempt, channel) }.update ctl (.connector s.attempt)) := by
  have hadd := getD_epollCtl_add s.descriptors hop (.connector s.attempt)
  rw [hfd] at hadd
  simp only [update]
  set d := (s.descriptors.epollCtl ctl (.connector s.attempt)).getD s.descriptors
  have hd : d.own = s.descriptors.own ∧ d.handed = s.descriptors.handed := by
    rcases hadd with hadd | ⟨-, hadd⟩
    · exact ⟨by rw [hadd], by rw [hadd]⟩
    · exact ⟨by rw [hadd]; rfl, by rw [hadd]; rfl⟩
  have hentries : ∀ entry ∈ d.interest, entry ∈ s.descriptors.interest ∨
      entry = (s.sockFd, .connector s.attempt) ∧ s.sockFd ∈ s.descriptors.own := by
    intro entry hentry
    rcases hadd with hadd | ⟨hopen, hadd⟩
    · exact Or.inl (hadd ▸ hentry)
    · rw [hadd] at hentry
      rcases List.mem_cons.mp hentry with hentry | hentry
      · exact Or.inr ⟨hentry, hopen.resolve_right hhanded⟩
      · exact Or.inl hentry
  constructor
  · intro fd hown
    rw [hd.1] at hown
    rw [hd.2]
    exact h.disjoint fd hown
  · intro fd k hentry
    rw [hd.1]
    rcases hentries _ hentry with hentry | ⟨heq, hown⟩
    · exact h.own fd k hentry
    · simp only [Prod.mk.injEq, Registrant.connector.injEq] at heq
      exact ⟨heq.1 ▸ hown, heq.2.le⟩
  · rintro k channel' heq
    obtain ⟨rfl, rfl⟩ := Prod.mk.injEq .. ▸ Option.some.inj heq
    refine ⟨le_rfl, Or.inl ⟨hindex, rfl, hsockfd, harm, hfresh, ?_⟩⟩
    intro fd hentry
    rcases hentries _ hentry with hentry | ⟨heq, -⟩
    · exact absurd hentry (hinterest fd)
    · exact (Prod.mk.injEq .. ▸ heq).1
  · intro k hk
    exact absurd (hactive ▸ hk) (by simp)
  · exact h.handed

lemma inv_connect (h : ConnectorInv s) (hidle : ¬ s.InProgress) {fd : ℤ}
    (hfresh : ¬ s.descriptors.Open fd) (result : Option Errno) :
    ConnectorInv (s.connect fd result) := by
  have hopened := inv_opened h hidle hfresh result
  obtain ⟨hactive, -⟩ := finished_of_idle h hidle
  unfold connect
  simp only
  split
  · rename_i harm
    refine inv_wait hopened hactive harm ?_ ?_ ?_ rfl rfl rfl rfl
    · intro fd' hentry
      simp only [interest_opened] at hentry
      exact Nat.not_succ_le_self _ (h.own fd' _ hentry).2
    · intro hattempt
      obtain ⟨h', hh', heq⟩ := List.mem_map.mp hattempt
      have hle := h.handed h' hh'
      simp only at heq
      omega
    · rw [handed_opened]
      exact fun hhanded => hfresh (Or.inr hhanded)
  · exact hopened
  · exact inv_closed hopened fun hne => absurd hactive hne

/-- A handover ends the attempt. -/
lemma inv_handover (h : ConnectorInv s) {k : ℕ} {channel channel' : Channel}
    (hpending : Pending s k channel) (hindex : channel'.index = .kDeleted) {h' : Handover}
    (hattempt : h'.attempt = s.attempt) :
    ConnectorInv { s with
      sockChan := some (k, channel')
      active := none
      resets := s.resets + 1
      descriptors := ((s.descriptors.unregister s.sockFd).pass s.sockFd).register s.sockFd
        .connection
      handovers := s.handovers ++ [h'] } := by
  have hentries : ∀ fd k, (fd, .connector k) ∈ (((s.descriptors.unregister s.sockFd).pass
      s.sockFd).register s.sockFd .connection).interest →
      (fd, .connector k) ∈ s.descriptors.interest ∧ fd ≠ s.sockFd := by
    intro fd k hentry
    rcases List.mem_cons.mp hentry with heq | hentry
    · simp at heq
    · exact (s.descriptors.mem_unregister _ _).mp hentry
  constructor
  · intro fd hfd hhanded
    obtain ⟨hown, hne⟩ := List.mem_filter.mp hfd
    rcases List.mem_cons.mp hhanded with rfl | hhanded
    · simp at hne
    · exact h.disjoint fd hown hhanded
  · intro fd k hentry
    obtain ⟨hentry, hne⟩ := hentries fd k hentry
    obtain ⟨hown, hk⟩ := h.own fd k hentry
    exact ⟨List.mem_filter.mpr ⟨hown, decide_eq_true hne⟩, hk⟩
  · rintro k' channel'' heq
    obtain ⟨rfl, rfl⟩ := Prod.mk.injEq .. ▸ Option.some.inj heq
    refine ⟨hpending.last.le, Or.inr ⟨hindex, ?_⟩⟩
    intro fd hentry
    obtain ⟨hentry, hne⟩ := hentries fd k hentry
    exact hne (hpending.interest fd hentry)
  · simp
  · intro h'' hh''
    rcases List.mem_append.mp hh'' with hh'' | hh''
    · exact h.handed h'' hh''
    · obtain rfl := List.mem_singleton.mp hh''
      exact hattempt.le

/-- Neither the pending functors nor the end of a report matter. -/
lemma inv_congr (h : ConnectorInv s) {active : Option ℕ}
    (hactive : ∀ k, active = some k → s.active = some k) (resets : ℕ) :
    ConnectorInv { s with active := active, resets := resets } where
  disjoint := h.disjoint
  own := h.own
  channel := by
    intro k channel hchannel
    obtain ⟨hk, hpending | hfinished⟩ := h.channel k channel hchannel
    · exact ⟨hk, Or.inl { hpending with }⟩
    · exact ⟨hk, Or.inr { hfinished with }⟩
  active := by
    intro k hk
    obtain ⟨channel, hchannel, hpending, hown⟩ := h.active k (hactive k hk)
    exact ⟨channel, hchannel, { hpending with }, hown⟩
  handed := h.handed

/-- A report is handled: it hands the socket over, or does nothing. -/
lemma handsOver_handleEvent (hs : HandsOver s) (h : ConnectorInv s) {getsockopt optval : ℤ}
    (hstep : step s (.handleEvent getsockopt optval) = some t) :
    (HandsOver t ↔ s.NoPendingError (.handleEvent getsockopt optval)) ∧ ConnectorInv t := by
  simp only [step] at hstep
  split at hstep
  · cases hstep
  · rename_i k channel hchannel
    obtain ⟨hactive, hstep⟩ := Option.ite_none_right_eq_some.mp hstep
    obtain rfl := Option.some.inj hstep
    have hguard : s.NoPendingError (.handleEvent getsockopt optval) ↔
        (channel.revents.epollout ∧ 0 ≤ getsockopt → optval = 0) := by
      simp [NoPendingError, hchannel]
    rw [hguard, handleEvent_eq]
    by_cases hwrite : channel.revents.epollout ∧ 0 ≤ getsockopt
    · obtain ⟨channel', hchannel', hpending, -⟩ := h.active k hactive
      obtain rfl : channel = channel' := by simpa [hchannel] using hchannel'
      rw [if_pos hwrite, handleWrite_of_sockfd hpending.sockfd hwrite.2]
      refine ⟨?_, inv_handover h hpending rfl rfl⟩
      have hconcat := established_concat
        (h := ⟨s.attempt, s.sockFd, s.result, optval, true, true⟩) hs hpending.arm hpending.fresh
        rfl rfl
      exact hconcat.trans ⟨fun hzero _ => hzero, fun hzero => hzero hwrite⟩
    · rw [if_neg hwrite]
      exact ⟨iff_of_true hs fun hwrite' => absurd hwrite' hwrite, inv_congr h (by simp) _⟩

lemma handovers_connect (s : Connector) (fd : ℤ) (result : Option Errno) :
    (s.connect fd result).handovers = s.handovers := by
  unfold connect
  simp only
  split <;> rfl

lemma handsOver_step (hs : HandsOver s) (h : ConnectorInv s) {e : Event}
    (hstep : step s e = some t) :
    (HandsOver t ↔ s.NoPendingError e) ∧ ConnectorInv t := by
  cases e with
  | connect fd result =>
    obtain ⟨⟨hidle, hfresh⟩, hstep⟩ := Option.ite_none_right_eq_some.mp hstep
    obtain rfl := Option.some.inj hstep
    have hnext : HandsOver (s.connect fd result) := by
      unfold HandsOver
      rw [handovers_connect]
      exact hs
    exact ⟨iff_of_true hnext trivial, inv_connect h hidle hfresh result⟩
  | stop =>
    obtain rfl := Option.some.inj hstep
    exact ⟨iff_of_true hs trivial, inv_congr h (fun _ hk => hk) _⟩
  | poll mask =>
    simp only [step] at hstep
    split at hstep
    · cases hstep
    · rename_i k channel hchannel
      obtain ⟨⟨-, hentry⟩, hstep⟩ := Option.ite_none_right_eq_some.mp hstep
      obtain rfl := Option.some.inj hstep
      exact ⟨iff_of_true hs trivial, inv_poll h hchannel hentry _⟩
  | handleEvent getsockopt optval => exact handsOver_handleEvent hs h hstep
  | resetChannel =>
    obtain ⟨⟨hactive, -⟩, hstep⟩ := Option.ite_none_right_eq_some.mp hstep
    obtain rfl := Option.some.inj hstep
    exact ⟨iff_of_true hs trivial, inv_resetChannel h hactive⟩
  | closeFd fd =>
    obtain ⟨hfd, hstep⟩ := Option.ite_none_right_eq_some.mp hstep
    obtain rfl := Option.some.inj hstep
    exact ⟨iff_of_true hs trivial, inv_closeFd h hfd⟩
  | unregisterFd fd =>
    obtain rfl := Option.some.inj hstep
    exact ⟨iff_of_true hs trivial, inv_unregisterFd h fd⟩

end Invariant

lemma handsOver_initial : HandsOver initial :=
  ⟨by simp [initial], List.nodup_nil, by simp [initial], by simp [initial]⟩

/-- The server refuses: the socket is writable, with an error. -/
def refused : List Event :=
  [.connect 5 (some .EINPROGRESS), .poll 0x01c, .handleEvent 0 111]

lemma refused_isSome : (run step initial refused).isSome = true := by decide +kernel

/-- The connector hands over established connections only, exactly in the runs where no error is
pending on a socket that is reported writable. -/
theorem hands_over_iff_noPendingError (es : List Event) :
    Always step HandsOver initial es ↔ Guarded step NoPendingError initial es := by
  refine always_iff_guarded_of_invariant ?_ handsOver_initial inv_initial es
  intro s e t hs h hstep
  obtain ⟨hiff, hinv⟩ := handsOver_step hs h hstep
  exact ⟨hiff, fun _ => hinv⟩

theorem hands_over_refused : ¬ Always step HandsOver initial refused := by
  intro h
  have hend := always_run h (Option.some_get refused_isSome).symm
  have hmem : (⟨1, 5, some .EINPROGRESS, 111, true, true⟩ : Handover) ∈
      ((run step initial refused).get refused_isSome).handovers := by decide +kernel
  exact absurd (hend.completed _ hmem).2 (by decide)

end RpcMuduo.Connector
