import RpcMuduo.ClosedConnection

/-!
# The connection table

`TcpServer::_connections` while a loop accepts connections, runs their handlers and closes them.
`Acceptor::handleRead` goes on after a failed `accept`.
-/
namespace RpcMuduo
open Run

/-- Connections are known by the order in which they were made, and `_connections` maps
descriptors to them. The rest is history: what `accept` returned when it succeeded, the calls of
`onConnection`, and the connections closed. -/
structure ConnectionTable where
  objects : List TcpConnection
  connections : List (ℤ × ℕ)
  pendingFunctors : List (ℕ × Functor)
  accepted : List (ℤ × ℕ)
  established : List ℕ
  closed : List ℕ

namespace ConnectionTable
open ConnectionLoop (Op)

/-- `accept` returns; a handler of a connection or a send in the loop; a send from another thread;
the next functor. -/
inductive Event
  | acceptable (connfd : ℤ)
  | connection (c : ℕ) (op : Op)
  | sendFrom (c : ℕ) (message : Bytes)
  | runFunctor (ret : ℤ)

def initial : ConnectionTable := ⟨[], [], [], [], [], []⟩

section Steps

variable (s : ConnectionTable)

def newConnection (sockfd : ℤ) : ConnectionTable :=
  { s with
    objects := s.objects ++ [TcpConnection.new sockfd]
    connections := (sockfd, s.objects.length) :: s.connections.filter fun p => p.1 ≠ sockfd
    established := s.established ++ [s.objects.length] }

/-- `Acceptor::handleRead`: an error is printed, and nothing else. -/
def handleRead (connfd : ℤ) : ConnectionTable :=
  { s.newConnection connfd with
    accepted := if connfd = -1 then s.accepted else s.accepted ++ [(connfd, s.objects.length)] }

def removeConnection (c : ℕ) (fd : ℤ) : ConnectionTable :=
  { s with
    connections := s.connections.filter fun p => p.1 ≠ fd
    closed := s.closed ++ [c] }

/-- The operation runs `handleClose`. -/
def Closes (conn : TcpConnection) (op : Op) : Prop :=
  conn.channel.index = .kAdded ∧ (op.apply conn).channel.index = .kDeleted

instance (conn : TcpConnection) (op : Op) : Decidable (Closes conn op) :=
  inferInstanceAs (Decidable (_ ∧ _))

/-- The operation and the functors it queues; `handleClose` ends in the close callback. -/
def perform (c : ℕ) (conn : TcpConnection) (op : Op) : ConnectionTable :=
  let conn' := op.apply conn
  let t := { s with
    objects := s.objects.set c { conn' with functors := [] }
    pendingFunctors := s.pendingFunctors ++ conn'.functors.map (Prod.mk c) }
  if Closes conn op then t.removeConnection c conn.sockfd else t

/-- No connection that is still open has the descriptor. -/
def Fresh (fd : ℤ) : Prop := ∀ p ∈ s.accepted, p.2 ∉ s.closed → p.1 ≠ fd

instance (fd : ℤ) : Decidable (s.Fresh fd) := inferInstanceAs (Decidable (∀ _ ∈ _, _))

end Steps

/-- What may happen to a connection: the kernel reports valid descriptors only. -/
def Possible (conn : TcpConnection) (op : Op) : Prop :=
  match op with
  | .send _ _ => True
  | .write _ => 0 ≤ conn.sockfd
  | .read _ _ | .close => 0 ≤ conn.sockfd ∧ conn.channel.index = .kAdded

instance (conn : TcpConnection) : (op : Op) → Decidable (Possible conn op)
  | .send _ _ => inferInstanceAs (Decidable True)
  | .write _ => inferInstanceAs (Decidable (_ ≤ _))
  | .read _ _ | .close => inferInstanceAs (Decidable (_ ∧ _))

@[grind =] def step (s : ConnectionTable) : Event → Option ConnectionTable
  | .acceptable connfd =>
    if connfd = -1 ∨ (0 ≤ connfd ∧ s.Fresh connfd) then some (s.handleRead connfd) else none
  | .connection c op =>
    match s.objects[c]? with
    | some conn => if Possible conn op then some (s.perform c conn op) else none
    | none => none
  | .sendFrom c message =>
    if c < s.objects.length then
      some { s with pendingFunctors := s.pendingFunctors ++ [(c, .onMessageCB message)] }
    else none
  | .runFunctor ret =>
    match s.pendingFunctors with
    | [] => none
    | (c, .onMessageCB message) :: rest =>
      match s.objects[c]? with
      | some conn => some ({ s with pendingFunctors := rest }.perform c conn (.send message ret))
      | none => none
    | (_, .onWriteComplateCB) :: rest => some { s with pendingFunctors := rest }

/-- The table holds the descriptors accepted and not closed, each with the connection made for
it, and `onConnection` was called once for each descriptor accepted and for nothing else. -/
structure Exact (s : ConnectionTable) : Prop where
  table : ∀ p, p ∈ s.connections ↔ p ∈ s.accepted ∧ p.2 ∉ s.closed
  single : ∀ p ∈ s.connections, ∀ q ∈ s.connections, p.1 = q.1 → p = q
  own : ∀ p ∈ s.connections, (s.objects[p.2]?).map TcpConnection.sockfd = some p.1
  once : s.established = s.accepted.map Prod.snd
  distinct : (s.accepted.map Prod.snd).Nodup

def AcceptSucceeds (_ : ConnectionTable) : Event → Prop
  | .acceptable connfd => connfd ≠ -1
  | .connection _ _ | .sendFrom _ _ | .runFunctor _ => True

/-- Every connection made was accepted, has its descriptor, and shows in its index whether it was
closed. -/
structure TableInv (s : ConnectionTable) : Prop where
  made : s.accepted.map Prod.snd = List.range s.objects.length
  sockfd : ∀ p ∈ s.accepted, (s.objects[p.2]?).map TcpConnection.sockfd = some p.1
  index : ∀ c conn, s.objects[c]? = some conn →
    conn.channel.index = if c ∈ s.closed then .kDeleted else .kAdded
  closed : ∀ c ∈ s.closed, c < s.objects.length

section Frame

variable (c : TcpConnection)

lemma kept_sockfd (fd : ℤ) : TcpConnection.Kept fun c => c.sockfd = fd where
  write := fun _ _ _ _ hc => hc
  outBuf := fun _ _ hc => hc
  setWriting := fun _ hc => hc
  clearWriting := fun _ hc => hc
  queueInLoop := fun _ _ hc => hc

lemma sockfd_apply (op : Op) : (op.apply c).sockfd = c.sockfd := by
  cases op with
  | send message ret => exact (kept_sockfd _).sendInLoop rfl message ret
  | write ret => exact (kept_sockfd _).handleWrite rfl ret
  | read readlength reset =>
    rcases c.handleRead_cases readlength reset with hread | hread
    · rw [Op.apply, hread]
    · rw [Op.apply, hread]
      rfl
  | close => rfl

/-- What is possible on a connection keeps its index, or closes it. -/
lemma index_apply {op : Op} (hpossible : Possible c op) (hnew : c.channel.index ≠ .kNew) :
    (op.apply c).channel.index = c.channel.index ∨ Closes c op := by
  cases op with
  | send message ret => exact Or.inl (ConnectionLoop.index_sendInLoop hnew message ret)
  | write ret => exact Or.inl (ConnectionLoop.index_handleWrite hnew ret)
  | read readlength reset =>
    rcases c.handleRead_cases readlength reset with hread | hread
    · exact Or.inl (by rw [Op.apply, hread])
    · exact Or.inr ⟨hpossible.2, by rw [Op.apply, hread]; rfl⟩
  | close => exact Or.inr ⟨hpossible.2, rfl⟩

end Frame

section Perform

variable (s : ConnectionTable) (c : ℕ) (conn : TcpConnection) (op : Op)

@[simp] lemma objects_perform : (s.perform c conn op).objects =
    s.objects.set c { op.apply conn with functors := [] } := by
  unfold perform
  simp only
  split <;> rfl

@[simp] lemma accepted_perform : (s.perform c conn op).accepted = s.accepted := by
  unfold perform
  simp only
  split <;> rfl

@[simp] lemma pendingFunctors_perform : (s.perform c conn op).pendingFunctors =
    s.pendingFunctors ++ (op.apply conn).functors.map (Prod.mk c) := by
  unfold perform
  simp only
  split <;> rfl

lemma connections_perform : (s.perform c conn op).connections = if Closes conn op then
    s.connections.filter fun p => p.1 ≠ conn.sockfd else s.connections := by
  unfold perform
  simp only
  split <;> rfl

lemma closed_perform : (s.perform c conn op).closed =
    if Closes conn op then s.closed ++ [c] else s.closed := by
  unfold perform
  simp only
  split <;> rfl

end Perform

section Table

variable {s t : ConnectionTable}

lemma sockfd_set {c : ℕ} {conn conn' : TcpConnection} (hobject : s.objects[c]? = some conn)
    (hsockfd : conn'.sockfd = conn.sockfd) (k : ℕ) :
    ((s.objects.set c conn')[k]?).map TcpConnection.sockfd =
      (s.objects[k]?).map TcpConnection.sockfd := by
  rw [List.getElem?_set]
  split
  · rename_i heq
    subst heq
    obtain ⟨hlt, -⟩ := List.getElem?_eq_some_iff.mp hobject
    rw [if_pos hlt, hobject, Option.map_some, Option.map_some, hsockfd]
  · rfl

/-- A connection that is not closed is in the table. -/
lemma mem_connections (h : Exact s) (hinv : TableInv s) {c : ℕ} {conn : TcpConnection}
    (hobject : s.objects[c]? = some conn) (hopen : c ∉ s.closed) :
    (conn.sockfd, c) ∈ s.connections := by
  obtain ⟨hlt, -⟩ := List.getElem?_eq_some_iff.mp hobject
  have hmade : c ∈ s.accepted.map Prod.snd := by
    rw [hinv.made]
    exact List.mem_range.mpr hlt
  obtain ⟨p, hp, rfl⟩ := List.mem_map.mp hmade
  have hsockfd := hinv.sockfd p hp
  rw [hobject, Option.map_some, Option.some.injEq] at hsockfd
  exact (h.table _).mpr ⟨hsockfd ▸ hp, hopen⟩

/-- Operations that close nothing, and what else leaves the table alone. -/
lemma exact_congr (h : Exact s) (hinv : TableInv s)
    (hconnections : t.connections = s.connections) (haccepted : t.accepted = s.accepted)
    (hestablished : t.established = s.established) (hclosed : t.closed = s.closed)
    (hlength : t.objects.length = s.objects.length)
    (hsockfd : ∀ k : ℕ, (t.objects[k]?).map TcpConnection.sockfd =
      (s.objects[k]?).map TcpConnection.sockfd)
    (hindex : ∀ c conn, t.objects[c]? = some conn →
      conn.channel.index = if c ∈ s.closed then .kDeleted else .kAdded) :
    Exact t ∧ TableInv t := by
  refine ⟨⟨?_, ?_, ?_, ?_, ?_⟩, ?_, ?_, ?_, ?_⟩
  · rw [hconnections, haccepted, hclosed]
    exact h.table
  · rw [hconnections]
    exact h.single
  · intro p hp
    rw [hsockfd]
    exact h.own p (hconnections ▸ hp)
  · rw [hestablished, haccepted]
    exact h.once
  · rw [haccepted]
    exact h.distinct
  · rw [haccepted, hlength]
    exact hinv.made
  · intro p hp
    rw [hsockfd]
    exact hinv.sockfd p (haccepted ▸ hp)
  · rw [hclosed]
    exact hindex
  · rw [hclosed, hlength]
    exact hinv.closed

/-- The channel of a connection after the operation, in terms of who is closed then. -/
lemma index_set (hinv : TableInv s) {c : ℕ} {conn conn' : TcpConnection} (closed : List ℕ)
    (hobject : s.objects[c]? = some conn)
    (hself : conn'.channel.index = if c ∈ closed then .kDeleted else .kAdded)
    (hothers : ∀ k, k ≠ c → (k ∈ closed ↔ k ∈ s.closed)) (k : ℕ) (object : TcpConnection)
    (hk : (s.objects.set c conn')[k]? = some object) :
    object.channel.index = if k ∈ closed then .kDeleted else .kAdded := by
  rw [List.getElem?_set] at hk
  split at hk
  · rename_i heq
    subst heq
    obtain ⟨hlt, -⟩ := List.getElem?_eq_some_iff.mp hobject
    rw [if_pos hlt, Option.some.injEq] at hk
    rw [← hk, hself]
  · rename_i hne
    rw [hinv.index k object hk]
    simp only [hothers k (Ne.symm hne)]

lemma exact_removeConnection (h : Exact s) (hinv : TableInv s) {c : ℕ}
    {conn : TcpConnection} (conn' : TcpConnection) (hobject : s.objects[c]? = some conn)
    (hadded : conn.channel.index = .kAdded) (hdeleted : conn'.channel.index = .kDeleted)
    (hsockfd : conn'.sockfd = conn.sockfd) (functors : List (ℕ × Functor)) :
    Exact (removeConnection { s with
      objects := s.objects.set c conn', pendingFunctors := functors } c conn.sockfd) ∧
    TableInv (removeConnection { s with
      objects := s.objects.set c conn', pendingFunctors := functors } c conn.sockfd) := by
  have hopen : c ∉ s.closed := by
    intro hclosed
    have hindex := hinv.index c conn hobject
    rw [hadded, if_pos hclosed] at hindex
    cases hindex
  have hmem := mem_connections h hinv hobject hopen
  have hset := sockfd_set hobject hsockfd
  have hsame : ∀ p ∈ s.connections, p.1 = conn.sockfd ↔ p.2 = c := by
    intro p hp
    constructor
    · intro hfd
      rw [h.single p hp _ hmem hfd]
    · intro hc
      have hown := h.own p hp
      rw [hc, hobject, Option.map_some, Option.some.injEq] at hown
      exact hown.symm
  refine ⟨⟨?_, ?_, ?_, h.once, h.distinct⟩, ?_, ?_, ?_, ?_⟩
  · intro p
    simp only [removeConnection, ne_eq, decide_not, List.mem_filter, Bool.not_eq_eq_eq_not,
      Bool.not_true, decide_eq_false_iff_not, List.mem_append, List.mem_singleton, not_or]
    rw [h.table p, and_assoc]
    refine and_congr_right fun hp => and_congr_right fun hlive => ?_
    exact not_congr (hsame p ((h.table p).mpr ⟨hp, hlive⟩))
  · intro p hp q hq
    exact h.single p (List.mem_of_mem_filter hp) q (List.mem_of_mem_filter hq)
  · intro p hp
    exact (hset p.2).trans (h.own p (List.mem_of_mem_filter hp))
  · simp only [removeConnection, List.length_set]
    exact hinv.made
  · intro p hp
    exact (hset p.2).trans (hinv.sockfd p hp)
  · refine index_set hinv (s.closed ++ [c]) hobject ?_ ?_
    · rw [if_pos (by simp), hdeleted]
    · intro k hk
      simp [hk]
  · intro k hk
    simp only [removeConnection, List.length_set]
    rcases List.mem_append.mp hk with hk | hk
    · exact hinv.closed k hk
    · rw [List.mem_singleton.mp hk]
      exact (List.getElem?_eq_some_iff.mp hobject).1

lemma exact_perform (h : Exact s) (hinv : TableInv s) {c : ℕ} {conn : TcpConnection} {op : Op}
    (hobject : s.objects[c]? = some conn) (hpossible : Possible conn op) :
    Exact (s.perform c conn op) ∧ TableInv (s.perform c conn op) := by
  have hsockfd := sockfd_apply conn op
  have hindex := hinv.index c conn hobject
  have hnew : conn.channel.index ≠ .kNew := by
    rw [hindex]
    split <;> simp
  unfold perform
  simp only
  split
  · rename_i hclose
    exact exact_removeConnection h hinv { op.apply conn with functors := [] } hobject hclose.1
      hclose.2 hsockfd _
  · rename_i hkeep
    have hsame : (op.apply conn).channel.index = conn.channel.index :=
      (index_apply conn hpossible hnew).resolve_right hkeep
    exact exact_congr h hinv rfl rfl rfl rfl List.length_set (sockfd_set hobject hsockfd)
      (index_set hinv s.closed hobject (hsame.trans hindex) fun _ _ => Iff.rfl)

lemma lt_of_accepted (hinv : TableInv s) {p : ℤ × ℕ} (hp : p ∈ s.accepted) :
    p.2 < s.objects.length := by
  have hmade : p.2 ∈ s.accepted.map Prod.snd := List.mem_map_of_mem hp
  rw [hinv.made] at hmade
  exact List.mem_range.mp hmade

/-- The connections accepted so far and a new one have their descriptors. -/
lemma sockfd_concat (hinv : TableInv s) (connfd : ℤ) {p : ℤ × ℕ}
    (hp : p ∈ s.accepted ++ [(connfd, s.objects.length)]) :
    ((s.objects ++ [TcpConnection.new connfd])[p.2]?).map TcpConnection.sockfd = some p.1 := by
  rcases List.mem_append.mp hp with hold | hnew
  · rw [List.getElem?_append_left (lt_of_accepted hinv hold)]
    exact hinv.sockfd p hold
  · rw [List.mem_singleton.mp hnew, List.getElem?_concat_length]
    rfl

lemma accepted_handleRead {connfd : ℤ} (hne : connfd ≠ -1) :
    (s.handleRead connfd).accepted = s.accepted ++ [(connfd, s.objects.length)] := by
  rw [handleRead, if_neg hne]

lemma tableInv_acceptable (hinv : TableInv s) {connfd : ℤ} (hne : connfd ≠ -1) :
    TableInv (s.handleRead connfd) := by
  have hnew : s.objects.length ∉ s.closed :=
    fun hclosed => lt_irrefl _ (hinv.closed _ hclosed)
  refine ⟨?_, ?_, ?_, ?_⟩
  · rw [accepted_handleRead hne, List.map_append, hinv.made]
    simp [handleRead, newConnection, List.range_succ]
  · intro p hp
    rw [accepted_handleRead hne] at hp
    exact sockfd_concat hinv connfd hp
  · intro c conn hobject
    change (s.objects ++ [TcpConnection.new connfd])[c]? = some conn at hobject
    change conn.channel.index = if c ∈ s.closed then .kDeleted else .kAdded
    rcases Nat.lt_or_ge c s.objects.length with hc | hc
    · rw [List.getElem?_append_left hc] at hobject
      exact hinv.index c conn hobject
    · obtain ⟨hc', -⟩ := List.getElem?_eq_some_iff.mp hobject
      rw [List.length_append, List.length_singleton] at hc'
      obtain rfl : c = s.objects.length := by omega
      rw [List.getElem?_concat_length, Option.some.injEq] at hobject
      rw [← hobject, if_neg hnew]
      rfl
  · intro c hc
    have hlt := hinv.closed c hc
    simp only [handleRead, newConnection, List.length_append]
    omega

lemma exact_acceptable (h : Exact s) (hinv : TableInv s) {connfd : ℤ}
    (hne : connfd ≠ -1) (hfresh : s.Fresh connfd) : Exact (s.handleRead connfd) := by
  have hlive : ∀ p ∈ s.connections, p.1 ≠ connfd := by
    intro p hp
    obtain ⟨haccepted, hopen⟩ := (h.table p).mp hp
    exact hfresh p haccepted hopen
  have hconnections : (s.handleRead connfd).connections =
      (connfd, s.objects.length) :: s.connections := by
    simp only [handleRead, newConnection, List.cons.injEq, true_and, List.filter_eq_self]
    intro p hp
    simpa using hlive p hp
  have hnew : s.objects.length ∉ s.closed :=
    fun hclosed => lt_irrefl _ (hinv.closed _ hclosed)
  have htable : ∀ p, p ∈ (s.handleRead connfd).connections ↔
      p ∈ (s.handleRead connfd).accepted ∧ p.2 ∉ s.closed := by
    intro p
    rw [hconnections, accepted_handleRead hne, List.mem_cons, List.mem_append,
      List.mem_singleton, h.table p]
    constructor
    · rintro (rfl | hp)
      · exact ⟨Or.inr rfl, hnew⟩
      · exact ⟨Or.inl hp.1, hp.2⟩
    · rintro ⟨hp | rfl, hopen⟩
      · exact Or.inr ⟨hp, hopen⟩
      · exact Or.inl rfl
  refine ⟨htable, ?_, ?_, ?_, ?_⟩
  · rw [hconnections]
    intro p hp q hq heq
    rcases List.mem_cons.mp hp with rfl | hp
    · rcases List.mem_cons.mp hq with rfl | hq
      · rfl
      · exact absurd heq.symm (hlive q hq)
    · rcases List.mem_cons.mp hq with rfl | hq
      · exact absurd heq (hlive p hp)
      · exact h.single p hp q hq heq
  · intro p hp
    exact (tableInv_acceptable hinv hne).sockfd p ((htable p).mp hp).1
  · rw [accepted_handleRead hne, List.map_append, ← h.once]
    rfl
  · rw [(tableInv_acceptable hinv hne).made]
    exact List.nodup_range

/-- After a failed `accept` there is one connection too many. -/
lemma not_exact_failed (h : Exact s) : ¬ Exact (s.handleRead (-1)) := by
  intro hexact
  have honce := hexact.once
  simp only [handleRead, newConnection, ↓reduceIte, ← h.once] at honce
  exact absurd (congrArg List.length honce) (by simp)

lemma exact_step (h : Exact s) (hinv : TableInv s) {e : Event} (hstep : step s e = some t) :
    (Exact t ↔ AcceptSucceeds s e) ∧ (Exact t → TableInv t) := by
  cases e with
  | acceptable connfd =>
    simp only [step, Option.ite_none_right_eq_some, Option.some.injEq] at hstep
    obtain ⟨hret, rfl⟩ := hstep
    rcases hret with rfl | ⟨hnonneg, hfresh⟩
    · have hnot := not_exact_failed h
      exact ⟨iff_of_false hnot (by simp [AcceptSucceeds]), fun hexact => absurd hexact hnot⟩
    · have hne : connfd ≠ -1 := by omega
      have hexact := exact_acceptable h hinv hne hfresh
      exact ⟨iff_of_true hexact hne, fun _ => tableInv_acceptable hinv hne⟩
  | connection c op =>
    simp only [step] at hstep
    split at hstep
    · rename_i conn hobject
      simp only [Option.ite_none_right_eq_some, Option.some.injEq] at hstep
      obtain ⟨hpossible, rfl⟩ := hstep
      obtain ⟨hexact, hinv'⟩ := exact_perform h hinv hobject hpossible
      exact ⟨iff_of_true hexact trivial, fun _ => hinv'⟩
    · cases hstep
  | sendFrom c message =>
    simp only [step, Option.ite_none_right_eq_some, Option.some.injEq] at hstep
    obtain ⟨-, rfl⟩ := hstep
    obtain ⟨hexact, hinv'⟩ := exact_congr (t := { s with pendingFunctors :=
      s.pendingFunctors ++ [(c, .onMessageCB message)] }) h hinv rfl rfl rfl rfl rfl
      (fun _ => rfl) hinv.index
    exact ⟨iff_of_true hexact trivial, fun _ => hinv'⟩
  | runFunctor ret =>
    simp only [step] at hstep
    split at hstep
    · cases hstep
    · rename_i c message rest hfunctors
      obtain ⟨hexact, hinv'⟩ := exact_congr (t := { s with pendingFunctors := rest }) h hinv rfl
        rfl rfl rfl rfl (fun _ => rfl) hinv.index
      split at hstep
      · rename_i conn hobject
        obtain rfl := Option.some.inj hstep
        have hpossible : Possible conn (.send message ret) := trivial
        have hperform := exact_perform hexact hinv' hobject hpossible
        exact ⟨iff_of_true hperform.1 trivial, fun _ => hperform.2⟩
      · cases hstep
    · rename_i c rest hfunctors
      obtain rfl := Option.some.inj hstep
      obtain ⟨hexact, hinv'⟩ := exact_congr (t := { s with pendingFunctors := rest }) h hinv rfl
        rfl rfl rfl rfl (fun _ => rfl) hinv.index
      exact ⟨iff_of_true hexact trivial, fun _ => hinv'⟩

lemma exact_initial : Exact initial := ⟨by simp [initial], by simp [initial], by simp [initial],
  rfl, List.nodup_nil⟩

lemma tableInv_initial : TableInv initial := ⟨rfl, by simp [initial], by simp [initial],
  by simp [initial]⟩

end Table

/-- The table is exact throughout a run exactly when no `accept` of the run fails. -/
theorem connection_table_exact_iff (es : List Event) :
    Always step Exact initial es ↔ Guarded step AcceptSucceeds initial es :=
  always_iff_guarded_of_invariant (fun _ _ _ h hinv hstep => exact_step h hinv hstep)
    exact_initial tableInv_initial es

theorem failed_accept_enters_table : ¬ Always step Exact initial [.acceptable (-1)] := by
  intro h
  exact not_exact_failed exact_initial (h.2 _ rfl)

end ConnectionTable

end RpcMuduo
