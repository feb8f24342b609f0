import RpcMuduo.TcpServer

/-!
# onConnection comes first

The channel of a connection is in the epoll of its loop before the connection has a user. A
server without IO threads polls only between whole calls of `newConnection`, while an IO thread
may poll in the middle of one.
-/
namespace RpcMuduo.TcpServer
open Run

/-- A `handleRead` needs the user, an `onMessage` an earlier `onConnection`. -/
def Timely (log : List Called) : Called → Prop
  | .handleRead _ user => user = true
  | .onMessage c => .onConnection c ∈ log
  | .onConnection _ | .onClose _ => True

/-- No `handleRead` without a user, and no `onMessage` before `onConnection`. -/
def Orderly (log : List Called) : Prop := Ordered Timely log

/-- `connectEstablished` has run for the connection. -/
def Established (s : TcpServer) (c : ℕ) : Prop := .onConnection c ∈ s.log

/-- Handling what the poll found on the channel makes no call that comes too early: a read needs
the user, and a read of data `connectEstablished`. -/
def Prepared (s : TcpServer) (c : ℕ) (conn : Connection) : Ready → Prop
  | .readable readlength => conn.user = true ∧ (0 < readlength → s.Established c)
  | .failed _ => conn.user = true
  | .hangup | .writable => True

/-- A channel is handled for reading only when its connection is prepared for it. -/
def HandlesPrepared (s : TcpServer) : Event → Prop
  | .handle l ready => ∀ c activeChannels conn,
    (s.loops l).phase = .handling (.connection c :: activeChannels) →
      s.connections[c]? = some conn → s.Prepared c conn ready
  | _ => True

/-- Polls return only channels of connections for which `connectEstablished` has run. -/
def PollsEstablished (s : TcpServer) : Event → Prop
  | .poll _ activeChannels => ∀ c, .connection c ∈ activeChannels → s.Established c
  | _ => True

section Order

variable {s t : TcpServer}

lemma orderly_call (called : Called) :
    Orderly (s.call called).log ↔ Orderly s.log ∧ Timely s.log called := ordered_concat

lemma handleRead_not_mem (h : Orderly s.log) (c : ℕ) : .handleRead c false ∉ s.log := by
  intro hmem
  obtain ⟨pre, htimely⟩ := h.mem hmem
  cases htimely

lemma orderly_connectEstablished (c : ℕ) (conn : Connection) :
    Orderly (s.connectEstablished c conn).log ↔ Orderly s.log := by
  unfold connectEstablished
  split
  · simp [orderly_call, Timely]
  · exact Iff.rfl

lemma orderly_handleClose (c : ℕ) (conn : Connection) :
    Orderly (s.handleClose c conn).log ↔ Orderly s.log := by
  unfold handleClose
  split
  · simp [orderly_call, Timely, modifyConnection]
  · exact Iff.rfl

lemma orderly_handleEvent (h : Orderly s.log) (c : ℕ) (conn : Connection) (ready : Ready) :
    Orderly (s.handleEvent c conn ready).log ↔ s.Prepared c conn ready := by
  have hread : Orderly (s.call (.handleRead c conn.user)).log ↔ conn.user = true := by
    simp [orderly_call, Timely, h]
  cases ready with
  | readable readlength =>
    simp only [handleEvent, handleRead, Prepared]
    by_cases hlength : 0 < readlength
    · cases hu : conn.user with
      | false => simpa [hu, hlength] using hread
      | true =>
        simp only [hlength, ↓reduceIte, orderly_call, Timely, h, true_and, forall_const,
          Established]
        simp [call]
    · simp only [hlength, ↓reduceIte, orderly_handleClose, hread, false_implies, and_true]
  | failed reset =>
    simp only [handleEvent, Prepared]
    split
    · rw [orderly_handleClose, hread]
    · exact hread
  | hangup => simpa only [handleEvent, Prepared, orderly_handleClose, iff_true] using h
  | writable => simpa only [handleEvent, Prepared, iff_true] using h

lemma orderly_acceptStep (stage : Stage) (c : ℕ) (conn : Connection) :
    Orderly (s.acceptStep stage c conn).log ↔ Orderly s.log := by
  cases stage with
  | constructed | userSet => exact Iff.rfl
  | closeCallbackSet =>
    simp only [acceptStep]
    split
    · exact orderly_connectEstablished c conn
    · exact Iff.rfl

/-- One step keeps the order exactly when what it handles is prepared. -/
lemma orderly_step (h : Orderly s.log) {e : Event} (hstep : step s e = some t) :
    Orderly t.log ↔ s.HandlesPrepared e := by
  cases e with
  | poll l activeChannels =>
    obtain ⟨-, -, -, rfl⟩ := step_poll hstep
    exact iff_of_true h trivial
  | handle l ready =>
    obtain ⟨src, activeChannels, hphase, -, hcases⟩ := step_handle hstep
    rcases hcases with ⟨rfl, rfl⟩ | ⟨c, conn, rfl, hconn, rfl⟩
    · refine iff_of_true h ?_
      intro c activeChannels' conn heq
      rw [hphase] at heq
      cases heq
    · have hset : Orderly (s.setPhase l (.handling activeChannels)).log := h
      rw [orderly_handleEvent hset]
      constructor
      · intro hprepared c' activeChannels' conn' heq hconn'
        rw [hphase] at heq
        cases heq
        rw [hconn, Option.some.injEq] at hconn'
        exact hconn' ▸ hprepared
      · intro hprepared
        exact hprepared c activeChannels conn hphase hconn
  | accept =>
    obtain ⟨stage, c, conn, -, -, rfl⟩ := step_accept hstep
    exact iff_of_true ((orderly_acceptStep stage c conn).mpr h) trivial
  | swapFunctors l =>
    obtain ⟨-, -, rfl⟩ := step_swapFunctors hstep
    exact iff_of_true h trivial
  | runFunctor l =>
    obtain ⟨c, functors, conn, -, -, rfl⟩ := step_runFunctor hstep
    exact iff_of_true ((orderly_connectEstablished c conn).mpr h) trivial
  | nextRound l =>
    obtain ⟨-, rfl⟩ := step_nextRound hstep
    exact iff_of_true h trivial

end Order

structure Inv (s : TcpServer) : Prop where
  orderly : Orderly s.log
  active : ∀ l activeChannels, (s.loops l).phase = .handling activeChannels →
    ∀ c, .connection c ∈ activeChannels → s.Established c
  user : ∀ c, s.Established c → ∃ conn, s.connections[c]? = some conn ∧ conn.user = true

section Preserved

variable {s : TcpServer}

lemma inv_call (h : Inv s) {called : Called} (htimely : Timely s.log called)
    (huser : ∀ c, called = .onConnection c →
      ∃ conn, s.connections[c]? = some conn ∧ conn.user = true) : Inv (s.call called) where
  orderly := (orderly_call called).mpr ⟨h.orderly, htimely⟩
  active := by
    intro l activeChannels hphase c hc
    exact List.mem_append_left _ (h.active l activeChannels hphase c hc)
  user := by
    intro c hc
    rcases List.mem_append.mp hc with hc | hc
    · exact h.user c hc
    · exact huser c (List.mem_singleton.mp hc).symm

lemma inv_modifyConnection (h : Inv s) (c : ℕ) {f : Connection → Connection}
    (hf : ∀ conn, conn.user = true → (f conn).user = true) : Inv (s.modifyConnection c f) where
  orderly := h.orderly
  active := h.active
  user := by
    intro c' hc'
    obtain ⟨conn, hconn, hu⟩ := h.user c' hc'
    simp only [modifyConnection, List.getElem?_modify, hconn]
    by_cases hcc : c = c'
    · exact ⟨f conn, by simp [hcc], hf conn hu⟩
    · exact ⟨conn, by simp [hcc], hu⟩

lemma inv_setPhase (h : Inv s) (l : ℕ) {phase : Phase}
    (hphase : ∀ activeChannels, phase = .handling activeChannels →
      ∀ c, .connection c ∈ activeChannels → s.Established c) : Inv (s.setPhase l phase) where
  orderly := h.orderly
  active := by
    intro l' activeChannels heq
    by_cases hl : l' = l
    · subst hl
      simp only [setPhase, Function.update_self] at heq
      exact hphase activeChannels heq
    · simp only [setPhase, Function.update_of_ne hl] at heq
      exact h.active l' activeChannels heq
  user := h.user

lemma inv_setAccepting (h : Inv s) (accepting : Option (Stage × ℕ)) :
    Inv { s with accepting := accepting } :=
  ⟨h.orderly, h.active, h.user⟩

lemma inv_construct (h : Inv s) : Inv s.construct where
  orderly := h.orderly
  active := h.active
  user := by
    intro c hc
    obtain ⟨conn, hconn, hu⟩ := h.user c hc
    refine ⟨conn, ?_, hu⟩
    rw [construct, List.getElem?_append_left (List.getElem?_eq_some_iff.mp hconn).1, hconn]

lemma inv_connectEstablished (h : Inv s) {c : ℕ} {conn : Connection}
    (hconn : s.connections[c]? = some conn) : Inv (s.connectEstablished c conn) := by
  unfold connectEstablished
  split
  · rename_i hu
    refine inv_call h trivial ?_
    intro c' hc'
    rw [Called.onConnection.injEq] at hc'
    exact ⟨conn, hc' ▸ hconn, hu⟩
  · exact h

lemma inv_handleClose (h : Inv s) (c : ℕ) (conn : Connection) : Inv (s.handleClose c conn) := by
  have hmod := inv_modifyConnection h c (f := fun conn => { conn with registered := false })
    fun _ hu => hu
  unfold handleClose
  split
  · exact inv_call hmod trivial (by simp)
  · exact hmod

/-- Handling an established connection, whatever the poll found on it. -/
lemma inv_handleEvent (h : Inv s) {c : ℕ} {conn : Connection}
    (hconn : s.connections[c]? = some conn) (hc : s.Established c) (ready : Ready) :
    Inv (s.handleEvent c conn ready) := by
  obtain ⟨conn', hconn', hu⟩ := h.user c hc
  rw [hconn, Option.some.injEq] at hconn'
  subst hconn'
  have hread : Inv (s.call (.handleRead c conn.user)) := inv_call h hu (by simp)
  cases ready with
  | readable readlength =>
    simp only [handleEvent, handleRead, hu, ↓reduceIte]
    rw [hu] at hread
    split
    · exact inv_call hread (List.mem_append_left _ hc) (by simp)
    · exact inv_handleClose hread c conn
  | failed reset =>
    simp only [handleEvent]
    split
    · exact inv_handleClose hread c conn
    · exact hread
  | hangup => exact inv_handleClose h c conn
  | writable => exact h

lemma inv_acceptStep (h : Inv s) {c : ℕ} {conn : Connection}
    (hconn : s.connections[c]? = some conn) (stage : Stage) : Inv (s.acceptStep stage c conn) := by
  cases stage with
  | constructed =>
    exact inv_setAccepting (inv_modifyConnection h c
      (f := fun conn => { conn with user := true }) fun _ _ => rfl) _
  | userSet =>
    exact inv_setAccepting (inv_modifyConnection h c
      (f := fun conn => { conn with closeCallback := true }) fun _ hu => hu) _
  | closeCallbackSet =>
    simp only [acceptStep]
    split
    · exact inv_setAccepting (inv_connectEstablished h hconn) _
    · refine ⟨h.orderly, ?_, h.user⟩
      intro l activeChannels hphase
      by_cases hl : l = conn.loop
      · subst hl
        simp only [Function.update_self] at hphase
        exact h.active _ activeChannels hphase
      · simp only [Function.update_of_ne hl] at hphase
        exact h.active _ activeChannels hphase

lemma inv_initial (n : ℕ) : Inv (initial n) where
  orderly := ordered_nil Timely
  active := by simp [initial]
  user := by simp [initial, Established]

end Preserved

/-- What a step preserves when the polls return established connections only. -/
lemma inv_step {s t : TcpServer} (h : Inv s) {e : Event} (hguard : s.PollsEstablished e)
    (hstep : step s e = some t) : Inv t := by
  cases e with
  | poll l activeChannels =>
    obtain ⟨-, -, -, rfl⟩ := step_poll hstep
    refine inv_setPhase h l ?_
    intro activeChannels' heq
    rw [Phase.handling.injEq] at heq
    exact heq ▸ hguard
  | handle l ready =>
    obtain ⟨src, activeChannels, hphase, -, hcases⟩ := step_handle hstep
    have hactive := h.active l _ hphase
    have hset : Inv (s.setPhase l (.handling activeChannels)) := by
      refine inv_setPhase h l ?_
      intro activeChannels' heq c hc
      rw [Phase.handling.injEq] at heq
      exact hactive c (List.mem_cons_of_mem _ (heq ▸ hc))
    rcases hcases with ⟨-, rfl⟩ | ⟨c, conn, rfl, hconn, rfl⟩
    · exact inv_construct hset
    · exact inv_handleEvent hset hconn (hactive c List.mem_cons_self) ready
  | accept =>
    obtain ⟨stage, c, conn, -, hconn, rfl⟩ := step_accept hstep
    exact inv_acceptStep h hconn stage
  | swapFunctors l =>
    obtain ⟨-, -, rfl⟩ := step_swapFunctors hstep
    refine ⟨h.orderly, ?_, h.user⟩
    intro l' activeChannels hphase
    by_cases hl : l' = l
    · subst hl
      simp at hphase
    · simp only [Function.update_of_ne hl] at hphase
      exact h.active l' activeChannels hphase
  | runFunctor l =>
    obtain ⟨c, functors, conn, -, hconn, rfl⟩ := step_runFunctor hstep
    exact inv_connectEstablished (inv_setPhase h l (by simp)) hconn
  | nextRound l =>
    obtain ⟨-, rfl⟩ := step_nextRound hstep
    exact inv_setPhase h l (by simp)

/-- Without IO threads: a connection is established, or is the one that the base loop is setting
up while it handles a batch. -/
structure BaseOnly (s : TcpServer) : Prop where
  ioLoops : s.ioLoops = 0
  loop : ∀ conn ∈ s.connections, conn.loop = 0
  idle : ∀ l ≠ 0, (s.loops l).phase = .polling
  established : ∀ c < s.connections.length, s.Established c ∨ ∃ stage, s.accepting = some (stage, c)
  busy : s.accepting ≠ none → ∃ activeChannels, (s.loops 0).phase = .handling activeChannels
  user : ∀ stage c conn, s.accepting = some (stage, c) → stage ≠ .constructed →
    s.connections[c]? = some conn → conn.user = true

section BaseOnly

variable {s t : TcpServer}

/-- The base loop polls while it is not setting up a connection. -/
lemma pollsEstablished_of_baseOnly (h : BaseOnly s) {e : Event} (hstep : step s e = some t) :
    s.PollsEstablished e := by
  cases e with
  | poll l activeChannels =>
    obtain ⟨hl, hphase, hregistered, -⟩ := step_poll hstep
    have hl0 : l = 0 := by
      rw [h.ioLoops] at hl
      omega
    subst hl0
    intro c hc
    obtain ⟨conn, hconn, -⟩ := hregistered _ hc
    rcases h.established c (List.getElem?_eq_some_iff.mp hconn).1 with hest | ⟨stage, haccepting⟩
    · exact hest
    · obtain ⟨activeChannels, hhandling⟩ := h.busy (by simp [haccepting])
      rw [hphase] at hhandling
      cases hhandling
  | handle | accept | swapFunctors | runFunctor | nextRound => trivial

lemma baseOnly_setPhase (h : BaseOnly s) {phase : Phase}
    (hphase : s.accepting = none ∨ ∃ activeChannels, phase = .handling activeChannels) :
    BaseOnly (s.setPhase 0 phase) where
  ioLoops := h.ioLoops
  loop := h.loop
  idle := by
    intro l hl
    simpa [setPhase, Function.update_of_ne hl] using h.idle l hl
  established := h.established
  busy := by
    intro haccepting
    rcases hphase with hnone | ⟨activeChannels, rfl⟩
    · exact absurd hnone haccepting
    · exact ⟨activeChannels, by simp [setPhase]⟩
  user := h.user

lemma baseOnly_call (h : BaseOnly s) (called : Called) : BaseOnly (s.call called) where
  ioLoops := h.ioLoops
  loop := h.loop
  established := by
    intro c hc
    rcases h.established c hc with hest | haccepting
    · exact Or.inl (List.mem_append_left _ hest)
    · exact Or.inr haccepting
  idle := h.idle
  busy := h.busy
  user := h.user

lemma baseOnly_modifyConnection (h : BaseOnly s) (c : ℕ) {f : Connection → Connection}
    (hloop : ∀ conn, (f conn).loop = conn.loop)
    (huser : ∀ conn, conn.user = true → (f conn).user = true) :
    BaseOnly (s.modifyConnection c f) where
  ioLoops := h.ioLoops
  loop := by
    intro conn hconn
    obtain ⟨i, hi, rfl⟩ := List.mem_iff_getElem.mp hconn
    simp only [modifyConnection, List.length_modify] at hi
    simp only [modifyConnection, List.getElem_modify]
    split
    · rw [hloop]
      exact h.loop _ (List.getElem_mem hi)
    · exact h.loop _ (List.getElem_mem hi)
  established := by
    intro c' hc'
    simp only [modifyConnection, List.length_modify] at hc'
    exact h.established c' hc'
  idle := h.idle
  busy := h.busy
  user := by
    intro stage c' conn haccepting hstage hconn
    simp only [modifyConnection, List.getElem?_modify] at hconn
    obtain ⟨conn', hconn', rfl⟩ := Option.map_eq_some_iff.mp hconn
    have hu := h.user stage c' conn' haccepting hstage hconn'
    split
    · exact huser conn' hu
    · exact hu

lemma baseOnly_handleClose (h : BaseOnly s) (c : ℕ) (conn : Connection) :
    BaseOnly (s.handleClose c conn) := by
  have hmod := baseOnly_modifyConnection h c
    (f := fun conn => { conn with registered := false }) (fun _ => rfl) fun _ hu => hu
  unfold handleClose
  split
  · exact baseOnly_call hmod _
  · exact hmod

lemma baseOnly_handleEvent (h : BaseOnly s) (c : ℕ) (conn : Connection) (ready : Ready) :
    BaseOnly (s.handleEvent c conn ready) := by
  cases ready with
  | readable readlength =>
    simp only [handleEvent, handleRead]
    split
    · split
      · exact baseOnly_call (baseOnly_call h _) _
      · exact baseOnly_call h _
    · exact baseOnly_handleClose (baseOnly_call h _) c conn
  | failed reset =>
    simp only [handleEvent]
    split
    · exact baseOnly_handleClose (baseOnly_call h _) c conn
    · exact baseOnly_call h _
  | hangup => exact baseOnly_handleClose h c conn
  | writable => exact h

lemma baseOnly_construct (h : BaseOnly s) (haccepting : s.accepting = none)
    {activeChannels : List Source} (hphase : (s.loops 0).phase = .handling activeChannels) :
    BaseOnly s.construct where
  ioLoops := h.ioLoops
  loop := by
    intro conn hconn
    simp only [construct, getNextLoop, h.ioLoops, ↓reduceIte, List.mem_append,
      List.mem_singleton] at hconn
    rcases hconn with hconn | rfl
    · exact h.loop conn hconn
    · rfl
  established := by
    intro c hc
    simp only [construct, List.length_append, List.length_singleton] at hc
    by_cases hlast : c = s.connections.length
    · exact Or.inr ⟨.constructed, by simp [construct, hlast]⟩
    · rcases h.established c (by omega) with hest | ⟨stage, hstage⟩
      · exact Or.inl hest
      · rw [haccepting] at hstage
        cases hstage
  idle := h.idle
  busy := fun _ => ⟨activeChannels, hphase⟩
  user := by
    intro stage c conn heq hstage
    simp only [construct, Option.some.injEq, Prod.mk.injEq] at heq
    exact absurd heq.1.symm hstage

/-- Between the steps of `newConnection` the connection at hand stays the only one that is not
established, and at the end it is. -/
lemma baseOnly_acceptStep (h : BaseOnly s) {stage : Stage} {c : ℕ} {conn : Connection}
    (haccepting : s.accepting = some (stage, c)) (hconn : s.connections[c]? = some conn) :
    BaseOnly (s.acceptStep stage c conn) := by
  have hothers : ∀ c' < s.connections.length, s.Established c' ∨ c = c' := by
    intro c' hc'
    rcases h.established c' hc' with hest | ⟨stage', hstage⟩
    · exact Or.inl hest
    · rw [haccepting] at hstage
      simp only [Option.some.injEq, Prod.mk.injEq] at hstage
      exact Or.inr hstage.2
  have hbusy := h.busy (by simp [haccepting])
  cases stage with
  | constructed =>
    have hmod := baseOnly_modifyConnection h c (f := fun conn => { conn with user := true })
      (fun _ => rfl) fun _ _ => rfl
    refine ⟨hmod.ioLoops, hmod.loop, h.idle, ?_, fun _ => hbusy, ?_⟩
    · intro c' hc'
      simp only [acceptStep, modifyConnection, List.length_modify] at hc'
      exact (hothers c' hc').imp_right fun hcc => ⟨.userSet, by rw [acceptStep, hcc]⟩
    · intro stage' c' conn' heq _ hconn'
      simp only [acceptStep, Option.some.injEq, Prod.mk.injEq] at heq
      simp only [acceptStep, modifyConnection, List.getElem?_modify, ← heq.2, hconn,
        Option.map_eq_map, Option.map_some, ↓reduceIte, Option.some.injEq] at hconn'
      rw [← hconn']
  | userSet =>
    have hmod := baseOnly_modifyConnection h c
      (f := fun conn => { conn with closeCallback := true }) (fun _ => rfl) fun _ hu => hu
    refine ⟨hmod.ioLoops, hmod.loop, h.idle, ?_, fun _ => hbusy, ?_⟩
    · intro c' hc'
      simp only [acceptStep, modifyConnection, List.length_modify] at hc'
      exact (hothers c' hc').imp_right fun hcc => ⟨.closeCallbackSet, by rw [acceptStep, hcc]⟩
    · intro stage' c' conn' heq _ hconn'
      simp only [acceptStep, Option.some.injEq, Prod.mk.injEq] at heq
      rw [← heq.2] at hconn'
      exact hmod.user .userSet c conn' haccepting (by simp) hconn'
  | closeCallbackSet =>
    have hu := h.user .closeCallbackSet c conn haccepting (by simp) hconn
    have hl := h.loop conn (List.mem_of_getElem? hconn)
    simp only [acceptStep, hl, ↓reduceIte, connectEstablished, hu]
    refine ⟨h.ioLoops, h.loop, h.idle, ?_, by simp, by simp⟩
    intro c' hc'
    rcases hothers c' hc' with hest | rfl
    · exact Or.inl (List.mem_append_left _ hest)
    · exact Or.inl (List.mem_append_right _ (List.mem_singleton_self _))

/-- Only the base loop gets past its poll. -/
lemma loop_eq_zero (h : BaseOnly s) {l : ℕ} (hl : (s.loops l).phase ≠ .polling) : l = 0 := by
  by_contra hne
  exact hl (h.idle l hne)

lemma accepting_eq_none (h : BaseOnly s)
    (hphase : ∀ activeChannels, (s.loops 0).phase ≠ .handling activeChannels) :
    s.accepting = none := by
  by_contra hne
  obtain ⟨activeChannels, hhandling⟩ := h.busy hne
  exact hphase activeChannels hhandling

lemma baseOnly_step (h : BaseOnly s) {e : Event} (hstep : step s e = some t) : BaseOnly t := by
  cases e with
  | poll l activeChannels =>
    obtain ⟨hl, -, -, rfl⟩ := step_poll hstep
    have hl0 : l = 0 := by
      rw [h.ioLoops] at hl
      omega
    subst hl0
    exact baseOnly_setPhase h (Or.inr ⟨activeChannels, rfl⟩)
  | handle l ready =>
    obtain ⟨src, activeChannels, hphase, hfree, hcases⟩ := step_handle hstep
    obtain rfl := loop_eq_zero (l := l) h (by simp [hphase])
    have hset : BaseOnly (s.setPhase 0 (.handling activeChannels)) :=
      baseOnly_setPhase h (Or.inr ⟨activeChannels, rfl⟩)
    rcases hcases with ⟨-, rfl⟩ | ⟨c, conn, -, -, rfl⟩
    · have hphase' : ((s.setPhase 0 (.handling activeChannels)).loops 0).phase =
          .handling activeChannels := by simp [setPhase]
      exact baseOnly_construct hset (hfree rfl) hphase'
    · exact baseOnly_handleEvent hset c conn ready
  | accept =>
    obtain ⟨stage, c, conn, haccepting, hconn, rfl⟩ := step_accept hstep
    exact baseOnly_acceptStep h haccepting hconn
  | swapFunctors l =>
    obtain ⟨hphase, hfree, rfl⟩ := step_swapFunctors hstep
    obtain rfl := loop_eq_zero (l := l) h (by simp [hphase])
    refine ⟨h.ioLoops, h.loop, ?_, h.established, fun hne => absurd (hfree rfl) hne, h.user⟩
    intro l hl
    simpa [Function.update_of_ne hl] using h.idle l hl
  | runFunctor l =>
    obtain ⟨c, functors, conn, hphase, hconn, rfl⟩ := step_runFunctor hstep
    obtain rfl := loop_eq_zero (l := l) h (by simp [hphase])
    have hset : BaseOnly (s.setPhase 0 (.running functors)) :=
      baseOnly_setPhase h (Or.inl (accepting_eq_none h (by simp [hphase])))
    unfold connectEstablished
    split
    · exact baseOnly_call hset _
    · exact hset
  | nextRound l =>
    obtain ⟨hphase, rfl⟩ := step_nextRound hstep
    obtain rfl := loop_eq_zero (l := l) h (by simp [hphase])
    exact baseOnly_setPhase h (Or.inl (accepting_eq_none h (by simp [hphase])))

lemma baseOnly_initial : BaseOnly (initial 0) where
  ioLoops := rfl
  loop := by simp [initial]
  idle := by simp [initial]
  established := by simp [initial]
  busy := by simp [initial]
  user := by simp [initial]

end BaseOnly

/-- Where the polls return established connections only, `onConnection` comes first. -/
lemma orderly_of_pollsEstablished {n : ℕ} {es : List Event}
    (h : Guarded step PollsEstablished (initial n) es) :
    Always step (fun s => Orderly s.log) (initial n) es :=
  always_of_guarded (P := Inv) (fun _ hs => hs.orderly)
    (fun _ _ _ hs hguard hstep => inv_step hs hguard hstep) (inv_initial n) h

/-- Without IO threads every run is of that kind. -/
lemma pollsEstablished_run (es : List Event) : Guarded step PollsEstablished (initial 0) es :=
  guarded_of_invariant (P := BaseOnly)
    (fun _ _ _ hs hstep => ⟨pollsEstablished_of_baseOnly hs hstep, baseOnly_step hs hstep⟩)
    baseOnly_initial es

/-- The first connection, with data from its peer: its IO loop polls right after the constructor
has registered its channel. -/
def pollInSetup : List Event :=
  [.poll 0 [.acceptor], .handle 0 (.readable 1), .poll 1 [.connection 0], .handle 1 (.readable 1)]

lemma pollInSetup_run {n : ℕ} (hn : 0 < n) :
    ∃ s, run step (initial n) pollInSetup = some s ∧ .handleRead 0 false ∈ s.log := by
  have hle : 1 ≤ n := hn
  simp [pollInSetup, run, step, initial, Registered, Free, setPhase, construct, getNextLoop,
    hn.ne', hle, handleEvent, handleRead, call]

/-- `onConnection` comes first exactly in the runs where every channel that is handled for
reading is prepared for it. Those where no poll returns a connection before `connectEstablished`
has run for it are among them, and all runs are exactly when there are no IO threads. -/
theorem onConnection_first_iff (n : ℕ) :
    (∀ es, Always step (fun s => Orderly s.log) (initial n) es ↔
      Guarded step HandlesPrepared (initial n) es) ∧
    (∀ es, Guarded step PollsEstablished (initial n) es →
      Always step (fun s => Orderly s.log) (initial n) es) ∧
    ((∀ es, Always step (fun s => Orderly s.log) (initial n) es) ↔ n = 0) := by
  refine ⟨?_, fun es => orderly_of_pollsEstablished, ?_, ?_⟩
  · intro es
    exact always_iff_guarded (fun s e t hs hstep => orderly_step hs hstep)
      (inv_initial n).orderly es
  · intro h
    by_contra hn
    obtain ⟨s, hrun, hmem⟩ := pollInSetup_run (Nat.pos_of_ne_zero hn)
    have horderly := always_run (P := fun s => Orderly s.log) (h pollInSetup) hrun
    exact handleRead_not_mem horderly 0 hmem
  · rintro rfl es
    exact orderly_of_pollsEstablished (pollsEstablished_run es)

theorem onConnection_not_first :
    ¬ Always step (fun s => Orderly s.log) (initial 1) pollInSetup := by
  intro h
  obtain ⟨s, hrun, hmem⟩ := pollInSetup_run Nat.one_pos
  have horderly := always_run (P := fun s => Orderly s.log) h hrun
  exact handleRead_not_mem horderly 0 hmem

end RpcMuduo.TcpServer
