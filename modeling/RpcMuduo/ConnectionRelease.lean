import RpcMuduo.ConnectionTable
import RpcMuduo.SharedLoop

/-!
# What accepting acquires

The descriptors and the owners of the connections of an `RpcServer`. `onConnection` puts a channel
in the context of the connection, and the channel points back to the connection; no destructor and
no handler closes the descriptor.
-/
namespace RpcMuduo
open Run StrongCount

/-- A `TcpConnection`, or the `RpcChannel` made for it. -/
inductive Object
  | connection (c : ℕ)
  | channel (c : ℕ)
  deriving DecidableEq

/-- An open descriptor stands with the connection that it was accepted for. -/
structure ConnectionRelease where
  table : ConnectionTable
  refs : Object → ℕ
  openFds : List (ℤ × ℕ)

namespace ConnectionRelease
open ConnectionLoop (Op)
open ConnectionTable (Event Exact TableInv Closes Possible)

def initial : ConnectionRelease := ⟨ConnectionTable.initial, fun _ => 0, []⟩

/-- `TcpConnection::_context` and `RpcChannel::_conn`. -/
def members : Object → List Object
  | .connection c => [.channel c]
  | .channel c => [.connection c]

/-- The `shared_ptr`s that a handler holds until it returns. -/
def guards (c : ℕ) (conn : TcpConnection) : Op → List Object
  | .read readlength reset =>
    match SharedLoop.readCallback conn readlength reset with
    | some .onMessage => [.connection c, .channel c]
    | some _ => [.connection c]
    | none => []
  | .close => [.connection c]
  | .send _ _ | .write _ => []

/-- The entries of `_connections` at a descriptor. -/
def entries (table : ConnectionTable) (fd : ℤ) : List Object :=
  (table.connections.filter fun p => p.1 = fd).map fun p => .connection p.2

/-- The entries that the close callback erases. -/
def erased (table : ConnectionTable) (conn : TcpConnection) (op : Op) : List Object :=
  if Closes conn op then entries table conn.sockfd else []

section Steps

variable (s : ConnectionRelease)

/-- `newConnection` makes `conn` and the entry of the table, `onConnection` makes `channel`, its
`_conn`, and the context. -/
def taken : Event → List Object
  | .acceptable _ =>
    let c := s.table.objects.length
    [.connection c, .connection c, .channel c, .connection c, .channel c]
  | .connection c op =>
    match s.table.objects[c]? with
    | some conn => guards c conn op
    | none => []
  | .sendFrom _ _ => []
  | .runFunctor _ =>
    match s.table.pendingFunctors with
    | (c, .onWriteComplateCB) :: _ => [.connection c]
    | _ => []

/-- What is given up when the handlers return; the close callback has erased the entry by then. -/
def dropped : Event → List Object
  | .acceptable connfd =>
    let c := s.table.objects.length
    entries s.table connfd ++ [.channel c, .connection c]
  | .connection c op =>
    match s.table.objects[c]? with
    | some conn => erased s.table conn op ++ guards c conn op
    | none => []
  | .sendFrom _ _ => []
  | .runFunctor _ =>
    match s.table.pendingFunctors with
    | (c, .onWriteComplateCB) :: _ => [.connection c]
    | _ => []

/-- The kernel gives a descriptor that is not open. -/
def Accepts : Event → Prop
  | .acceptable connfd => connfd ≠ -1 ∧ ∀ p ∈ s.openFds, p.1 ≠ connfd
  | .connection _ _ | .sendFrom _ _ | .runFunctor _ => True

instance : (e : Event) → Decidable (s.Accepts e)
  | .acceptable _ => inferInstanceAs (Decidable (_ ∧ ∀ _ ∈ _, _))
  | .connection _ _ | .sendFrom _ _ | .runFunctor _ => inferInstanceAs (Decidable True)

def opened : Event → List (ℤ × ℕ)
  | .acceptable connfd => [(connfd, s.table.objects.length)]
  | .connection _ _ | .sendFrom _ _ | .runFunctor _ => []

end Steps

@[grind =] def step (s : ConnectionRelease) (e : Event) : Option ConnectionRelease :=
  if s.Accepts e then
    (ConnectionTable.step s.table e).map fun table =>
      { table := table
        refs := exchange members (2 * table.objects.length) s.refs (s.taken e) (s.dropped e)
        openFds := s.openFds ++ s.opened e }
  else none

section Released

variable (s : ConnectionRelease)

/-- A functor of the connection is left in the loop. -/
def Waiting (c : ℕ) : Prop := c ∈ s.table.pendingFunctors.map Prod.fst

instance (c : ℕ) : Decidable (s.Waiting c) := inferInstanceAs (Decidable (_ ∈ _))

def unclosed : ℕ := (List.range s.table.objects.length).countP fun c => c ∉ s.table.closed

def live : ℕ := (List.range s.table.objects.length).countP fun c => 0 < s.refs (.connection c)

/-- Connections that are closed and have nothing left in the loop are gone, with their channels
and descriptors. -/
structure Released : Prop where
  fds : ∀ p ∈ s.table.accepted, p.2 ∈ s.table.closed → ¬ s.Waiting p.2 → p ∉ s.openFds
  owners : ∀ c ∈ s.table.closed, ¬ s.Waiting c →
    s.refs (.connection c) = 0 ∧ s.refs (.channel c) = 0
  counts : (∀ c ∈ s.table.closed, ¬ s.Waiting c) →
    s.openFds.length = s.unclosed ∧ s.live = s.unclosed

/-- The event runs `handleClose`. -/
def ClosedBy (conn : TcpConnection) : Op → Prop
  | .read readlength reset => SharedLoop.readCallback conn readlength reset = some .onClose
  | .close => True
  | .send _ _ | .write _ => False

/-- The connection that the event closes, or the closed one whose functor it runs, has another
functor waiting, or the message goes out whole and `onWriteComplateCB` is queued. -/
def KeepsWaiting : Event → Prop
  | .connection c op => ∀ conn, s.table.objects[c]? = some conn → ClosedBy conn op → s.Waiting c
  | .runFunctor ret =>
    match s.table.pendingFunctors with
    | (c, .onMessageCB message) :: rest => c ∈ s.table.closed →
      c ∈ rest.map Prod.fst ∨ ∀ conn, s.table.objects[c]? = some conn →
        conn.outBuf.readableBytes = 0 ∧ CInt.toInt32 ret = CInt.toInt32 message.length
    | (c, .onWriteComplateCB) :: rest => c ∈ s.table.closed → c ∈ rest.map Prod.fst
    | [] => True
  | .acceptable _ | .sendFrom _ _ => True

end Released

/-- All strong references: entries of the table, the contexts, and the pointers of the channels. -/
def held (table : ConnectionTable) : List Object :=
  (table.connections.map fun p => .connection p.2) ++
    ((List.range table.objects.length).map .channel ++
      (List.range table.objects.length).map .connection)

structure ReleaseInv (s : ConnectionRelease) : Prop where
  exact : Exact s.table
  table : TableInv s.table
  counts : Counts s.refs (held s.table)
  fds : s.openFds = s.table.accepted
  functors : ∀ conn ∈ s.table.objects, conn.functors = []
  named : ∀ p ∈ s.table.pendingFunctors, p.1 < s.table.objects.length

section Close

variable {conn : TcpConnection} {op : Op}

lemma closes_iff (hpossible : Possible conn op) (hnew : conn.channel.index ≠ .kNew) :
    Closes conn op ↔ ClosedBy conn op := by
  have hkept : ∀ index : Index, index = conn.channel.index →
      ¬ (conn.channel.index = .kAdded ∧ index = .kDeleted) := by
    rintro index rfl ⟨hadded, hdeleted⟩
    cases hadded.symm.trans hdeleted
  cases op with
  | send message ret =>
    exact iff_of_false (hkept _ (ConnectionLoop.index_sendInLoop hnew message ret)) not_false
  | write ret => exact iff_of_false (hkept _ (ConnectionLoop.index_handleWrite hnew ret)) not_false
  | read readlength reset =>
    have hclosed : conn.handleClose.channel.index = .kDeleted := rfl
    simp only [Closes, ClosedBy, Op.apply, TcpConnection.handleRead, SharedLoop.readCallback]
    split_ifs <;> simp [hpossible.2, hclosed]
  | close => exact iff_of_true ⟨hpossible.2, rfl⟩ trivial

lemma functors_of_closedBy (h : ClosedBy conn op) : (op.apply conn).functors = conn.functors := by
  cases op with
  | send message ret => exact h.elim
  | write ret => exact h.elim
  | read readlength reset =>
    rcases conn.handleRead_cases readlength reset with hread | hread
    · rw [Op.apply, hread]
    · rw [Op.apply, hread]
      rfl
  | close => rfl

/-- The first functor goes and others come at the end. -/
lemma waiting_pop {closed : List ℕ} {c : ℕ} {f : Functor} {rest : List (ℕ × Functor)}
    (queued : List Functor) (h : ∀ k ∈ closed, k ∈ ((c, f) :: rest).map Prod.fst) :
    (∀ k ∈ closed, k ∈ (rest ++ queued.map (Prod.mk c)).map Prod.fst) ↔
      (c ∈ closed → c ∈ rest.map Prod.fst ∨ queued ≠ []) := by
  constructor
  · intro hall hc
    have hmem := hall c hc
    rw [List.map_append, List.mem_append] at hmem
    refine hmem.imp_right ?_
    rintro hqueued rfl
    cases hqueued
  · intro hkeeps k hk
    rw [List.map_append, List.mem_append]
    rcases List.mem_cons.mp (h k hk) with rfl | hrest
    · refine (hkeeps hk).imp_right fun hne => ?_
      obtain ⟨g, hg⟩ := List.exists_mem_of_ne_nil _ hne
      exact List.mem_map.mpr ⟨(k, g), List.mem_map_of_mem hg, rfl⟩
    · exact Or.inl hrest

end Close

section Held

variable {table : ConnectionTable}

lemma mem_held (table : ConnectionTable) {c : ℕ} (hc : c < table.objects.length) :
    .connection c ∈ held table ∧ .channel c ∈ held table := by
  have hrange : c ∈ List.range table.objects.length := List.mem_range.mpr hc
  exact ⟨List.mem_append_right _ (List.mem_append_right _ (List.mem_map_of_mem hrange)),
    List.mem_append_right _ (List.mem_append_left _ (List.mem_map_of_mem hrange))⟩

lemma mem_guards {c : ℕ} {conn : TcpConnection} {op : Op} {a : Object}
    (ha : a ∈ guards c conn op) : a = .connection c ∨ a = .channel c := by
  cases op with
  | send message ret => cases ha
  | write ret => cases ha
  | read readlength reset =>
    simp only [guards] at ha
    split at ha
    · simpa using ha
    · simpa using Or.inl (List.mem_singleton.mp ha)
    · cases ha
  | close => exact Or.inl (List.mem_singleton.mp ha)

lemma mem_entries (h : Exact table) (hinv : TableInv table) {fd : ℤ} {a : Object}
    (ha : a ∈ entries table fd) : ∃ c < table.objects.length, a = .connection c := by
  obtain ⟨p, hp, rfl⟩ := List.mem_map.mp ha
  have haccepted := ((h.table p).mp (List.mem_of_mem_filter hp)).1
  exact ⟨p.2, ConnectionTable.lt_of_accepted hinv haccepted, rfl⟩

/-- What the close callback erases is all that leaves the table. -/
lemma held_perform (table : ConnectionTable) (c : ℕ) (conn : TcpConnection) (op : Op) :
    (erased table conn op ++ held (table.perform c conn op)).Perm (held table) := by
  rw [List.perm_iff_count]
  intro a
  simp only [held, erased, ConnectionTable.connections_perform, ConnectionTable.objects_perform,
    List.length_set, List.count_append]
  split
  · have hcount := (perm_of_filter (fun p => Object.connection p.2) (fun p => p.1 = conn.sockfd)
      table.connections).count_eq a
    rw [List.count_append] at hcount
    simp only [entries, ne_eq]
    omega
  · rw [List.count_nil, Nat.zero_add]

/-- An accepted connection is held by the table and by its channel, the channel by the
connection. -/
lemma held_handleRead (table : ConnectionTable) (connfd : ℤ) :
    (entries table connfd ++ held (table.handleRead connfd)).Perm
      ([.connection table.objects.length, .channel table.objects.length,
        .connection table.objects.length] ++ held table) := by
  rw [List.perm_iff_count]
  intro a
  have hcount := (perm_of_filter (fun p => Object.connection p.2) (fun p => p.1 = connfd)
    table.connections).count_eq a
  simp only [List.count_append] at hcount
  simp only [held, entries, ConnectionTable.handleRead, ConnectionTable.newConnection,
    List.length_append, List.length_singleton, List.range_succ, List.map_append, List.map_cons,
    List.map_nil, List.count_append, List.count_cons, List.count_nil, ne_eq]
  omega

end Held

section Inv

variable {s t : ConnectionRelease}

/-- The channel of a connection and the connection keep each other, whatever has been closed. -/
lemma alive (h : ReleaseInv s) {c : ℕ} (hc : c < s.table.objects.length) :
    0 < s.refs (.connection c) ∧ 0 < s.refs (.channel c) :=
  ⟨h.counts.pos_iff.mpr (mem_held s.table hc).1, h.counts.pos_iff.mpr (mem_held s.table hc).2⟩

lemma released_iff (h : ReleaseInv s) :
    s.Released ↔ ∀ c ∈ s.table.closed, s.Waiting c := by
  have hmade : s.table.accepted.length = s.table.objects.length := by
    have hlength := congrArg List.length h.table.made
    rwa [List.length_map, List.length_range] at hlength
  constructor
  · intro hreleased c hc
    by_contra hwaiting
    have halive := alive h (h.table.closed c hc)
    have hgone := hreleased.owners c hc hwaiting
    omega
  · intro hwaiting
    refine ⟨?_, ?_, ?_⟩
    · intro p _ hc hquiet
      exact absurd (hwaiting p.2 hc) hquiet
    · intro c hc hquiet
      exact absurd (hwaiting c hc) hquiet
    · intro hquiet
      have hclosed : s.table.closed = [] :=
        List.eq_nil_iff_forall_not_mem.mpr fun c hc => hquiet c hc (hwaiting c hc)
      have hunclosed : s.unclosed = s.table.objects.length := by
        simp [unclosed, hclosed]
      have hlive : s.live = s.table.objects.length := by
        rw [live, List.countP_eq_length.mpr, List.length_range]
        intro c hc
        exact decide_eq_true (alive h (List.mem_range.mp hc)).1
      rw [hunclosed, hlive, h.fds, hmade]
      exact ⟨rfl, rfl⟩

lemma step_cases {e : Event} (h : step s e = some t) :
    s.Accepts e ∧ ConnectionTable.step s.table e = some t.table ∧
      t.refs = exchange members (2 * t.table.objects.length) s.refs (s.taken e) (s.dropped e) ∧
      t.openFds = s.openFds ++ s.opened e := by
  simp only [step, Option.ite_none_right_eq_some, Option.map_eq_some_iff] at h
  obtain ⟨haccepts, table, htable, rfl⟩ := h
  exact ⟨haccepts, htable, rfl, rfl⟩

/-- The step as the table, the functors and the list of references see it. -/
lemma inv_of_perm {e : Event} (h : ReleaseInv s) (hstep : step s e = some t)
    (hperm : (s.dropped e ++ held t.table).Perm (s.taken e ++ held s.table))
    (hdropped : ∀ a ∈ s.dropped e, a ∈ held t.table)
    (hfds : s.table.accepted ++ s.opened e = t.table.accepted)
    (hfunctors : ∀ conn ∈ t.table.objects, conn.functors = [])
    (hnamed : ∀ p ∈ t.table.pendingFunctors, p.1 < t.table.objects.length) : ReleaseInv t := by
  obtain ⟨haccepts, htable, hrefs, hopen⟩ := step_cases hstep
  have hsucceeds : ConnectionTable.AcceptSucceeds s.table e := by
    cases e with
    | acceptable connfd => exact haccepts.1
    | connection c op => trivial
    | sendFrom c message => trivial
    | runFunctor ret => trivial
  obtain ⟨hexact, hinv⟩ := ConnectionTable.exact_step h.exact h.table htable
  refine ⟨hexact.mpr hsucceeds, hinv (hexact.mpr hsucceeds), ?_, ?_, hfunctors, hnamed⟩
  · rw [hrefs]
    exact h.counts.exchange members _ hperm hdropped
  · rw [hopen, h.fds, hfds]

lemma functors_set (h : ReleaseInv s) (c : ℕ) (conn : TcpConnection) (op : Op) :
    ∀ object ∈ (s.table.perform c conn op).objects, object.functors = [] := by
  intro object hobject
  rw [ConnectionTable.objects_perform] at hobject
  rcases List.mem_or_eq_of_mem_set hobject with hold | rfl
  · exact h.functors object hold
  · rfl

lemma index_ne_kNew (h : ReleaseInv s) {c : ℕ} {conn : TcpConnection}
    (hobject : s.table.objects[c]? = some conn) : conn.channel.index ≠ .kNew := by
  rw [h.table.index c conn hobject]
  split <;> simp

lemma inv_acceptable (h : ReleaseInv s) {connfd : ℤ}
    (hstep : step s (.acceptable connfd) = some t) :
    ReleaseInv t ∧ t.table = s.table.handleRead connfd := by
  obtain ⟨haccepts, htable, -⟩ := step_cases hstep
  simp only [ConnectionTable.step, Option.ite_none_right_eq_some, Option.some.injEq] at htable
  obtain ⟨-, htable⟩ := htable
  have hlength : t.table.objects.length = s.table.objects.length + 1 := by
    rw [← htable]
    exact List.length_append
  refine ⟨inv_of_perm h hstep ?_ ?_ ?_ ?_ ?_, htable.symm⟩
  · rw [← htable, List.perm_iff_count]
    intro a
    have hcount := (held_handleRead s.table connfd).count_eq a
    simp only [List.count_append, List.count_cons, List.count_nil] at hcount
    simp only [taken, dropped, List.count_append, List.count_cons, List.count_nil]
    omega
  · intro a ha
    rcases List.mem_append.mp ha with hentry | hlocal
    · obtain ⟨c, hc, rfl⟩ := mem_entries h.exact h.table hentry
      exact (mem_held t.table (by omega)).1
    · have hlast : s.table.objects.length < t.table.objects.length := by omega
      have hnew := mem_held t.table hlast
      rcases List.mem_cons.mp hlocal with rfl | hlocal
      · exact hnew.2
      · rw [List.mem_singleton.mp hlocal]
        exact hnew.1
  · rw [← htable]
    exact (ConnectionTable.accepted_handleRead haccepts.1).symm
  · intro conn hconn
    rw [← htable] at hconn
    rcases List.mem_append.mp hconn with hold | hnew
    · exact h.functors conn hold
    · rw [List.mem_singleton.mp hnew]
      rfl
  · intro p hp
    rw [← htable] at hp
    have hlt := h.named p hp
    omega

lemma inv_connection (h : ReleaseInv s) {c : ℕ} {op : Op}
    (hstep : step s (.connection c op) = some t) :
    ReleaseInv t ∧ ∃ conn, s.table.objects[c]? = some conn ∧ Possible conn op ∧
      t.table = s.table.perform c conn op := by
  obtain ⟨-, htable, -⟩ := step_cases hstep
  simp only [ConnectionTable.step] at htable
  split at htable
  · rename_i conn hobject
    simp only [Option.ite_none_right_eq_some, Option.some.injEq] at htable
    obtain ⟨hpossible, htable⟩ := htable
    obtain ⟨hc, -⟩ := List.getElem?_eq_some_iff.mp hobject
    have hlength : t.table.objects.length = s.table.objects.length := by
      rw [← htable, ConnectionTable.objects_perform, List.length_set]
    refine ⟨inv_of_perm h hstep ?_ ?_ ?_ ?_ ?_, conn, hobject, hpossible, htable.symm⟩
    · simp only [taken, dropped, hobject, ← htable, List.perm_iff_count, List.count_append]
      intro a
      have hcount := (held_perform s.table c conn op).count_eq a
      rw [List.count_append] at hcount
      omega
    · intro a ha
      simp only [dropped, hobject] at ha
      rcases List.mem_append.mp ha with herased | hguard
      · unfold erased at herased
        split at herased
        · obtain ⟨k, hk, rfl⟩ := mem_entries h.exact h.table herased
          exact (mem_held t.table (by omega)).1
        · cases herased
      · have hself := mem_held t.table (hlength ▸ hc)
        rcases mem_guards hguard with rfl | rfl
        · exact hself.1
        · exact hself.2
    · rw [← htable, ConnectionTable.accepted_perform]
      exact List.append_nil _
    · rw [← htable]
      exact functors_set h c conn op
    · intro p hp
      rw [← htable, ConnectionTable.pendingFunctors_perform] at hp
      rcases List.mem_append.mp hp with hold | hqueued
      · exact hlength ▸ h.named p hold
      · obtain ⟨f, -, rfl⟩ := List.mem_map.mp hqueued
        exact hlength ▸ hc
  · cases htable

lemma inv_sendFrom (h : ReleaseInv s) {c : ℕ} {message : Bytes}
    (hstep : step s (.sendFrom c message) = some t) :
    ReleaseInv t ∧ t.table = { s.table with pendingFunctors :=
      s.table.pendingFunctors ++ [(c, .onMessageCB message)] } := by
  obtain ⟨-, htable, -⟩ := step_cases hstep
  simp only [ConnectionTable.step, Option.ite_none_right_eq_some, Option.some.injEq] at htable
  obtain ⟨hc, htable⟩ := htable
  refine ⟨inv_of_perm h hstep ?_ ?_ ?_ ?_ ?_, htable.symm⟩
  · rw [← htable]
    exact List.Perm.refl _
  · intro a ha
    cases ha
  · rw [← htable]
    exact List.append_nil _
  · rw [← htable]
    exact h.functors
  · intro p hp
    rw [← htable] at hp ⊢
    rcases List.mem_append.mp hp with hold | hnew
    · exact h.named p hold
    · rw [List.mem_singleton.mp hnew]
      exact hc

/-- A queued message is sent: no connection is closed, and what the send queues is left at the
end. -/
lemma inv_onMessageCB (h : ReleaseInv s) {c : ℕ} {message : Bytes} {rest : List (ℕ × Functor)}
    (hpending : s.table.pendingFunctors = (c, .onMessageCB message) :: rest) {ret : ℤ}
    (hstep : step s (.runFunctor ret) = some t) :
    ReleaseInv t ∧ t.table.closed = s.table.closed ∧ ∃ conn, s.table.objects[c]? = some conn ∧
      t.table.pendingFunctors =
        rest ++ (Op.apply conn (.send message ret)).functors.map (Prod.mk c) := by
  obtain ⟨-, htable, -⟩ := step_cases hstep
  have hnamed := h.named
  rw [hpending, List.forall_mem_cons] at hnamed
  simp only [ConnectionTable.step, hpending] at htable
  split at htable
  · rename_i conn hobject
    have htable := Option.some.inj htable
    have hpossible : Possible conn (.send message ret) := trivial
    have hopen : ¬ Closes conn (.send message ret) := by
      rw [closes_iff hpossible (index_ne_kNew h hobject)]
      exact not_false
    refine ⟨inv_of_perm h hstep ?_ ?_ ?_ ?_ ?_, ?_, conn, hobject, ?_⟩
    · have hperm := held_perform { s.table with pendingFunctors := rest } c conn
        (.send message ret)
      rw [erased, if_neg hopen] at hperm
      simp only [taken, dropped, hpending, ← htable]
      exact hperm
    · intro a ha
      simp only [dropped, hpending] at ha
      cases ha
    · rw [← htable, ConnectionTable.accepted_perform]
      exact List.append_nil _
    · intro object hmem
      rw [← htable, ConnectionTable.objects_perform] at hmem
      refine functors_set h c conn (.send message ret) object ?_
      rwa [ConnectionTable.objects_perform]
    · intro p hp
      rw [← htable, ConnectionTable.pendingFunctors_perform] at hp
      rw [← htable, ConnectionTable.objects_perform, List.length_set]
      rcases List.mem_append.mp hp with hold | hqueued
      · exact hnamed.2 p hold
      · obtain ⟨f, -, rfl⟩ := List.mem_map.mp hqueued
        exact hnamed.1
    · rw [← htable, ConnectionTable.closed_perform, if_neg hopen]
    · rw [← htable, ConnectionTable.pendingFunctors_perform]
  · cases htable

lemma inv_onWriteComplateCB (h : ReleaseInv s) {c : ℕ} {rest : List (ℕ × Functor)}
    (hpending : s.table.pendingFunctors = (c, .onWriteComplateCB) :: rest) {ret : ℤ}
    (hstep : step s (.runFunctor ret) = some t) :
    ReleaseInv t ∧ t.table = { s.table with pendingFunctors := rest } := by
  obtain ⟨-, htable, -⟩ := step_cases hstep
  have hnamed := h.named
  rw [hpending, List.forall_mem_cons] at hnamed
  simp only [ConnectionTable.step, hpending] at htable
  have htable := Option.some.inj htable
  refine ⟨inv_of_perm h hstep ?_ ?_ ?_ ?_ ?_, htable.symm⟩
  · simp only [taken, dropped, hpending, ← htable]
    exact List.Perm.refl _
  · intro a ha
    simp only [dropped, hpending, List.mem_singleton] at ha
    rw [ha, ← htable]
    exact (mem_held { s.table with pendingFunctors := rest } hnamed.1).1
  · rw [← htable]
    exact List.append_nil _
  · rw [← htable]
    exact h.functors
  · rw [← htable]
    exact hnamed.2

/-- When a functor has run, the closed connections have functors left except perhaps its own. -/
lemma released_runFunctor (hinv : ReleaseInv s)
    (hwaiting : ∀ c ∈ s.table.closed, s.Waiting c) {ret : ℤ}
    (hstep : step s (.runFunctor ret) = some t) :
    (t.Released ↔ s.KeepsWaiting (.runFunctor ret)) ∧ ReleaseInv t := by
  unfold Waiting at hwaiting
  rcases hpending : s.table.pendingFunctors with _ | ⟨⟨c, _ | message⟩, rest⟩
  · obtain ⟨-, htable, -⟩ := step_cases hstep
    simp only [ConnectionTable.step, hpending] at htable
    cases htable
  · obtain ⟨hinv', htable⟩ := inv_onWriteComplateCB hinv hpending hstep
    rw [hpending] at hwaiting
    have hpop := waiting_pop [] hwaiting
    refine ⟨?_, hinv'⟩
    rw [released_iff hinv']
    simp only [Waiting, KeepsWaiting, htable, hpending]
    simpa using hpop
  · obtain ⟨hinv', hclosed, conn, hobject, hrest⟩ := inv_onMessageCB hinv hpending hstep
    have hconn : conn.functors = [] := hinv.functors conn (List.mem_of_getElem? hobject)
    rw [hpending] at hwaiting
    refine ⟨?_, hinv'⟩
    rw [released_iff hinv', hclosed]
    simp only [Waiting, KeepsWaiting, hrest, hpending]
    rw [waiting_pop _ hwaiting]
    simp [hobject, Op.apply, ConnectionLoop.functors_sendInLoop, hconn]

/-- Only an event that closes a connection can leave a closed one without a functor. -/
lemma released_connection (hinv : ReleaseInv s)
    (hwaiting : ∀ c ∈ s.table.closed, s.Waiting c) {c : ℕ} {op : Op}
    (hstep : step s (.connection c op) = some t) :
    (t.Released ↔ s.KeepsWaiting (.connection c op)) ∧ ReleaseInv t := by
  obtain ⟨hinv', conn, hobject, hpossible, htable⟩ := inv_connection hinv hstep
  refine ⟨?_, hinv'⟩
  have hgrows : ∀ k, s.Waiting k → t.Waiting k := by
    intro k hk
    rw [Waiting, htable, ConnectionTable.pendingFunctors_perform, List.map_append]
    exact List.mem_append_left _ hk
  have hclosed := ConnectionTable.closed_perform s.table c conn op
  have hiff := closes_iff hpossible (index_ne_kNew hinv hobject)
  rw [released_iff hinv', htable, hclosed]
  by_cases hcloses : Closes conn op
  · have hsame : t.table.pendingFunctors = s.table.pendingFunctors := by
      have hconn : conn.functors = [] := hinv.functors conn (List.mem_of_getElem? hobject)
      rw [htable, ConnectionTable.pendingFunctors_perform,
        functors_of_closedBy (hiff.mp hcloses), hconn]
      exact List.append_nil _
    have hself : t.Waiting c ↔ s.Waiting c := by
      rw [Waiting, Waiting, hsame]
    rw [if_pos hcloses]
    constructor
    · intro hall object _ _
      exact hself.mp (hall c (by simp))
    · intro hkeeps k hk
      rcases List.mem_append.mp hk with hold | hnew
      · exact hgrows k (hwaiting k hold)
      · rw [List.mem_singleton.mp hnew]
        exact hself.mpr (hkeeps conn hobject (hiff.mp hcloses))
  · rw [if_neg hcloses]
    refine iff_of_true (fun k hk => hgrows k (hwaiting k hk)) ?_
    intro object hobject' hclosedBy
    rw [hobject, Option.some.injEq] at hobject'
    exact absurd (hiff.mpr (hobject' ▸ hclosedBy)) hcloses

lemma released_step (h : s.Released) (hinv : ReleaseInv s) {e : Event}
    (hstep : step s e = some t) : (t.Released ↔ s.KeepsWaiting e) ∧ ReleaseInv t := by
  have hwaiting := (released_iff hinv).mp h
  cases e with
  | acceptable connfd =>
    obtain ⟨hinv', htable⟩ := inv_acceptable hinv hstep
    refine ⟨iff_of_true ((released_iff hinv').mpr ?_) trivial, hinv'⟩
    unfold Waiting
    rw [htable]
    exact hwaiting
  | connection c op => exact released_connection hinv hwaiting hstep
  | sendFrom c message =>
    obtain ⟨hinv', htable⟩ := inv_sendFrom hinv hstep
    refine ⟨iff_of_true ((released_iff hinv').mpr ?_) trivial, hinv'⟩
    intro k hk
    rw [htable] at hk
    rw [Waiting, htable, List.map_append]
    exact List.mem_append_left _ (hwaiting k hk)
  | runFunctor ret => exact released_runFunctor hinv hwaiting hstep

lemma inv_initial : ReleaseInv initial :=
  ⟨ConnectionTable.exact_initial, ConnectionTable.tableInv_initial, fun _ => rfl, rfl,
    by simp [initial, ConnectionTable.initial], by simp [initial, ConnectionTable.initial]⟩

end Inv

/-- A run releases what it acquired exactly as long as every closed connection has a functor
waiting: none is ever freed. -/
theorem released_iff_keeps_waiting (es : List Event) :
    Always step Released initial es ↔ Guarded step KeepsWaiting initial es := by
  refine always_iff_guarded_of_invariant (Q := ReleaseInv) ?_ ?_ inv_initial es
  · intro s e t h hinv hstep
    obtain ⟨hiff, hinv'⟩ := released_step h hinv hstep
    exact ⟨hiff, fun _ => hinv'⟩
  · exact (released_iff inv_initial).mpr (by simp [initial, ConnectionTable.initial])

/-- A connection is accepted and closed. -/
theorem closed_connection_not_released :
    ¬ Always step Released initial [.acceptable 5, .connection 0 .close] := by
  intro h
  have hrun := always_run h (t := (run step initial [.acceptable 5, .connection 0 .close]).get
    (by decide)) (by simp)
  exact absurd (hrun.fds (5, 0) (by decide) (by decide) (by decide)) (by decide)

end ConnectionRelease

end RpcMuduo
