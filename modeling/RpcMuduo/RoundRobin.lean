import RpcMuduo.TcpServer

/-!
# The loops of the connections

`getNextLoop` spreads the connections over the IO threads in turn, and every callback of a
connection runs in the thread of the loop that it was given.
-/
namespace RpcMuduo
open Run

namespace TcpServer

/-- The loop of the `c`-th connection with `n` IO threads. -/
def loopOf (n c : ℕ) : ℕ := if n = 0 then 0 else c % n + 1

/-- The connection that something has been called for. -/
def Called.connection : Called → ℕ
  | .handleRead c _ | .onConnection c | .onMessage c | .onClose c => c

/-- The loop whose thread takes the step. -/
def Event.thread : Event → ℕ
  | .poll l _ | .handle l _ | .swapFunctors l | .runFunctor l | .nextRound l => l
  | .accept => 0

/-- What is done for one connection: its calls are logged, and the loops stay as they are, both
those of the server and those that the connections were given. -/
structure DoneFor (c : ℕ) (s t : TcpServer) : Prop where
  log : ∃ calls, t.log = s.log ++ calls ∧ ∀ called ∈ calls, called.connection = c
  loops : t.loops = s.loops
  given : t.connections.map Connection.loop = s.connections.map Connection.loop
  ioLoops : t.ioLoops = s.ioLoops
  nextLoop : t.nextLoop = s.nextLoop

section DoneFor

variable {s t u : TcpServer} {c : ℕ}

lemma DoneFor.refl (c : ℕ) (s : TcpServer) : DoneFor c s s :=
  ⟨⟨[], by simp⟩, rfl, rfl, rfl, rfl⟩

lemma DoneFor.trans (h : DoneFor c s t) (h' : DoneFor c t u) : DoneFor c s u := by
  obtain ⟨calls, hlog, hcalls⟩ := h.log
  obtain ⟨calls', hlog', hcalls'⟩ := h'.log
  refine ⟨⟨calls ++ calls', by rw [hlog', hlog, List.append_assoc], ?_⟩, h'.loops.trans h.loops,
    h'.given.trans h.given, h'.ioLoops.trans h.ioLoops, h'.nextLoop.trans h.nextLoop⟩
  intro called hmem
  exact (List.mem_append.mp hmem).elim (hcalls called) (hcalls' called)

lemma doneFor_call {called : Called} (h : called.connection = c) : DoneFor c s (s.call called) :=
  ⟨⟨[called], rfl, by simpa using h⟩, rfl, rfl, rfl, rfl⟩

lemma doneFor_modifyConnection (i : ℕ) {f : Connection → Connection}
    (hf : ∀ conn, (f conn).loop = conn.loop) : DoneFor c s (s.modifyConnection i f) := by
  refine ⟨⟨[], by simp [modifyConnection]⟩, rfl, ?_, rfl, rfl⟩
  refine List.ext_getElem? fun j => ?_
  simp only [modifyConnection, List.getElem?_map, List.getElem?_modify]
  cases s.connections[j]? with
  | none => rfl
  | some conn =>
    simp only [Option.map_eq_map, Option.map_some, Option.some.injEq]
    split
    · exact hf conn
    · rfl

lemma doneFor_connectEstablished (conn : Connection) :
    DoneFor c s (s.connectEstablished c conn) := by
  unfold connectEstablished
  split
  · exact doneFor_call rfl
  · exact .refl c s

lemma doneFor_handleClose (conn : Connection) : DoneFor c s (s.handleClose c conn) := by
  have hmod : DoneFor c s (s.modifyConnection c fun conn => { conn with registered := false }) :=
    doneFor_modifyConnection c fun _ => rfl
  unfold handleClose
  dsimp only
  split
  · exact hmod.trans (doneFor_call rfl)
  · exact hmod

lemma doneFor_handleEvent (conn : Connection) (ready : Ready) :
    DoneFor c s (s.handleEvent c conn ready) := by
  have hread : DoneFor c s (s.call (.handleRead c conn.user)) := doneFor_call rfl
  cases ready with
  | readable readlength =>
    simp only [handleEvent, handleRead]
    split
    · split
      · exact hread.trans (doneFor_call rfl)
      · exact hread
    · exact hread.trans (doneFor_handleClose conn)
  | failed reset =>
    simp only [handleEvent]
    split
    · exact hread.trans (doneFor_handleClose conn)
    · exact hread
  | hangup => exact doneFor_handleClose conn
  | writable => exact .refl c s

end DoneFor

/-- Every connection has the loop whose turn it was, and a loop only gets at connections of its
own. -/
structure RoundRobin (s : TcpServer) : Prop where
  given : s.connections.map Connection.loop =
    (List.range s.connections.length).map (loopOf s.ioLoops)
  nextLoop : s.nextLoop = s.connections.length % s.ioLoops ∨ s.ioLoops = 0
  active : ∀ l activeChannels, (s.loops l).phase = .handling activeChannels →
    ∀ c, .connection c ∈ activeChannels → loopOf s.ioLoops c = l
  pending : ∀ l, ∀ c ∈ (s.loops l).pendingFunctors, loopOf s.ioLoops c = l
  running : ∀ l functors, (s.loops l).phase = .running functors →
    ∀ c ∈ functors, loopOf s.ioLoops c = l

section Steps

variable {s t : TcpServer}

lemma RoundRobin.loop (h : RoundRobin s) {c : ℕ} {conn : Connection}
    (hconn : s.connections[c]? = some conn) : conn.loop = loopOf s.ioLoops c := by
  have hlt := (List.getElem?_eq_some_iff.mp hconn).1
  have hget := congrArg (·[c]?) h.given
  simpa [hconn, List.getElem?_range hlt] using hget

lemma RoundRobin.doneFor {c : ℕ} (h : RoundRobin s) (hdone : DoneFor c s t) : RoundRobin t := by
  have hlen : t.connections.length = s.connections.length := by
    simpa using congrArg List.length hdone.given
  constructor
  · rw [hdone.given, h.given, hlen, hdone.ioLoops]
  · rw [hdone.nextLoop, hlen, hdone.ioLoops]
    exact h.nextLoop
  · rw [hdone.loops, hdone.ioLoops]
    exact h.active
  · rw [hdone.loops, hdone.ioLoops]
    exact h.pending
  · rw [hdone.loops, hdone.ioLoops]
    exact h.running

/-- A change of one loop. -/
lemma RoundRobin.update (h : RoundRobin s) {l : ℕ} {loop : LoopState}
    (hactive : ∀ activeChannels, loop.phase = .handling activeChannels →
      ∀ c, .connection c ∈ activeChannels → loopOf s.ioLoops c = l)
    (hpending : ∀ c ∈ loop.pendingFunctors, loopOf s.ioLoops c = l)
    (hrunning : ∀ functors, loop.phase = .running functors →
      ∀ c ∈ functors, loopOf s.ioLoops c = l) :
    RoundRobin { s with loops := Function.update s.loops l loop } := by
  refine ⟨h.given, h.nextLoop, ?_, ?_, ?_⟩
  · intro l'
    rcases eq_or_ne l' l with rfl | hne
    · simpa only [Function.update_self]
    · simpa only [Function.update_of_ne hne] using h.active l'
  · intro l'
    rcases eq_or_ne l' l with rfl | hne
    · simpa only [Function.update_self]
    · simpa only [Function.update_of_ne hne] using h.pending l'
  · intro l'
    rcases eq_or_ne l' l with rfl | hne
    · simpa only [Function.update_self]
    · simpa only [Function.update_of_ne hne] using h.running l'

lemma RoundRobin.construct (h : RoundRobin s) : RoundRobin s.construct := by
  refine ⟨?_, ?_, h.active, h.pending, h.running⟩
  · simp only [TcpServer.construct, List.map_append, List.map_cons, List.map_nil,
      List.length_append, List.length_singleton, List.range_succ, h.given]
    congr 2
    unfold getNextLoop loopOf
    split
    · rfl
    · rename_i hpool
      rw [h.nextLoop.resolve_right hpool]
  · rcases Nat.eq_zero_or_pos s.ioLoops with hnone | hpool
    · exact Or.inr hnone
    · refine Or.inl ?_
      have hnext := h.nextLoop.resolve_right hpool.ne'
      have hlt := Nat.mod_lt s.connections.length hpool
      simp only [TcpServer.construct, getNextLoop, hpool.ne', if_false, List.length_append,
        List.length_singleton, hnext]
      rw [← Nat.mod_add_mod]
      split
      · rename_i hwrap
        have hlast : s.connections.length % s.ioLoops + 1 = s.ioLoops :=
          Nat.le_antisymm hlt hwrap
        rw [hlast, Nat.mod_self]
      · rename_i hwrap
        rw [Nat.mod_eq_of_lt (not_le.mp hwrap)]

lemma RoundRobin.setPhase (h : RoundRobin s) {l : ℕ} {phase : Phase}
    (hactive : ∀ activeChannels, phase = .handling activeChannels →
      ∀ c, .connection c ∈ activeChannels → loopOf s.ioLoops c = l)
    (hrunning : ∀ functors, phase = .running functors →
      ∀ c ∈ functors, loopOf s.ioLoops c = l) : RoundRobin (s.setPhase l phase) :=
  h.update hactive (h.pending l) hrunning

lemma RoundRobin.setAccepting (h : RoundRobin s) (accepting : Option (Stage × ℕ)) :
    RoundRobin { s with accepting := accepting } :=
  ⟨h.given, h.nextLoop, h.active, h.pending, h.running⟩

/-- What a step adds to the log, it adds in the thread of the loop that the connection has. -/
def CallsInOwnLoop (s t : TcpServer) (e : Event) : Prop :=
  ∃ calls, t.log = s.log ++ calls ∧
    ∀ called ∈ calls, e.thread = loopOf s.ioLoops called.connection

lemma callsInOwnLoop_of_log {e : Event} (h : t.log = s.log) : CallsInOwnLoop s t e :=
  ⟨[], by simpa using h, by simp⟩

lemma DoneFor.callsInOwnLoop {c : ℕ} {e : Event} (hdone : DoneFor c s t)
    (hthread : e.thread = loopOf s.ioLoops c) : CallsInOwnLoop s t e := by
  obtain ⟨calls, hlog, hcalls⟩ := hdone.log
  exact ⟨calls, hlog, fun called hmem => by rw [hcalls called hmem, hthread]⟩

lemma roundRobin_acceptStep (h : RoundRobin s) {c : ℕ} {conn : Connection}
    (hconn : s.connections[c]? = some conn) (stage : Stage) :
    RoundRobin (s.acceptStep stage c conn) ∧
      CallsInOwnLoop s (s.acceptStep stage c conn) .accept := by
  have hloop := h.loop hconn
  cases stage with
  | constructed =>
    have hdone : DoneFor c s (s.modifyConnection c fun conn => { conn with user := true }) :=
      doneFor_modifyConnection c fun _ => rfl
    exact ⟨(h.doneFor hdone).setAccepting _, callsInOwnLoop_of_log rfl⟩
  | userSet =>
    have hdone : DoneFor c s
        (s.modifyConnection c fun conn => { conn with closeCallback := true }) :=
      doneFor_modifyConnection c fun _ => rfl
    exact ⟨(h.doneFor hdone).setAccepting _, callsInOwnLoop_of_log rfl⟩
  | closeCallbackSet =>
    unfold acceptStep
    dsimp only
    split
    · rename_i hbase
      have hdone := doneFor_connectEstablished (s := s) (c := c) conn
      exact ⟨(h.doneFor hdone).setAccepting _, hdone.callsInOwnLoop (hbase.symm.trans hloop)⟩
    · refine ⟨?_, callsInOwnLoop_of_log rfl⟩
      refine (h.setAccepting none).update (h.active conn.loop) ?_ (h.running conn.loop)
      intro c' hmem
      rcases List.mem_append.mp hmem with hbefore | hnew
      · exact h.pending conn.loop c' hbefore
      · rw [List.mem_singleton.mp hnew]
        exact hloop.symm

lemma roundRobin_step (h : RoundRobin s) {e : Event} (hstep : step s e = some t) :
    RoundRobin t ∧ CallsInOwnLoop s t e := by
  cases e with
  | poll l activeChannels =>
    obtain ⟨-, -, hregistered, rfl⟩ := step_poll hstep
    refine ⟨h.setPhase ?_ (by simp), callsInOwnLoop_of_log rfl⟩
    intro active heq c hmem
    obtain rfl := Phase.handling.inj heq
    obtain ⟨conn, hconn, rfl, -⟩ := hregistered _ hmem
    exact (h.loop hconn).symm
  | handle l ready =>
    obtain ⟨src, activeChannels, hphase, -, hcases⟩ := step_handle hstep
    have hset : RoundRobin (s.setPhase l (.handling activeChannels)) := by
      refine h.setPhase ?_ (by simp)
      intro active heq c hmem
      obtain rfl := Phase.handling.inj heq
      exact h.active l _ hphase c (List.mem_cons_of_mem _ hmem)
    rcases hcases with ⟨rfl, rfl⟩ | ⟨c, conn, rfl, hconn, rfl⟩
    · exact ⟨hset.construct, callsInOwnLoop_of_log rfl⟩
    · have hdone := doneFor_handleEvent (s := s.setPhase l (.handling activeChannels)) (c := c)
        conn ready
      have hthread : l = loopOf s.ioLoops c := (h.active l _ hphase c (by simp)).symm
      exact ⟨hset.doneFor hdone, hdone.callsInOwnLoop hthread⟩
  | accept =>
    obtain ⟨stage, c, conn, -, hconn, rfl⟩ := step_accept hstep
    exact roundRobin_acceptStep h hconn stage
  | swapFunctors l =>
    obtain ⟨-, -, rfl⟩ := step_swapFunctors hstep
    refine ⟨h.update (by simp) (by simp) ?_, callsInOwnLoop_of_log rfl⟩
    intro functors heq
    obtain rfl := Phase.running.inj heq
    exact h.pending l
  | runFunctor l =>
    obtain ⟨c, functors, conn, hphase, -, rfl⟩ := step_runFunctor hstep
    have hset : RoundRobin (s.setPhase l (.running functors)) := by
      refine h.setPhase (by simp) ?_
      intro rest heq c' hmem
      obtain rfl := Phase.running.inj heq
      exact h.running l _ hphase c' (List.mem_cons_of_mem _ hmem)
    have hdone := doneFor_connectEstablished (s := s.setPhase l (.running functors)) (c := c) conn
    have hthread : l = loopOf s.ioLoops c := (h.running l _ hphase c (by simp)).symm
    exact ⟨hset.doneFor hdone, hdone.callsInOwnLoop hthread⟩
  | nextRound l =>
    obtain ⟨-, rfl⟩ := step_nextRound hstep
    exact ⟨h.setPhase (by simp) (by simp), callsInOwnLoop_of_log rfl⟩

lemma roundRobin_initial (n : ℕ) : RoundRobin (initial n) := by
  refine ⟨rfl, ?_, ?_, ?_, ?_⟩ <;> simp [initial]

lemma ioLoops_step {e : Event} (hstep : step s e = some t) : t.ioLoops = s.ioLoops := by
  cases e with
  | poll l activeChannels =>
    obtain ⟨-, -, -, rfl⟩ := step_poll hstep
    rfl
  | handle l ready =>
    obtain ⟨src, activeChannels, -, -, ⟨-, rfl⟩ | ⟨c, conn, -, -, rfl⟩⟩ := step_handle hstep
    · rfl
    · exact (doneFor_handleEvent conn ready).ioLoops
  | accept =>
    obtain ⟨stage, c, conn, -, -, rfl⟩ := step_accept hstep
    cases stage with
    | constructed | userSet => rfl
    | closeCallbackSet =>
      unfold acceptStep
      dsimp only
      split
      · exact (doneFor_connectEstablished (c := c) conn).ioLoops
      · rfl
  | swapFunctors l =>
    obtain ⟨-, -, rfl⟩ := step_swapFunctors hstep
    rfl
  | runFunctor l =>
    obtain ⟨c, functors, conn, -, -, rfl⟩ := step_runFunctor hstep
    exact (doneFor_connectEstablished (c := c) conn).ioLoops
  | nextRound l =>
    obtain ⟨-, rfl⟩ := step_nextRound hstep
    rfl

end Steps

/-- How many connections a loop was given. -/
def load (s : TcpServer) (l : ℕ) : ℕ := s.connections.countP (·.loop = l)

lemma load_eq {s : TcpServer} (h : RoundRobin s) (hpool : 0 < s.ioLoops) {v : ℕ}
    (hv : v < s.ioLoops) : s.load (v + 1) = s.connections.length / s.ioLoops +
      if v < s.connections.length % s.ioLoops then 1 else 0 := by
  have hcount : s.load (v + 1) =
      (s.connections.map Connection.loop).countP (fun l => l = v + 1) := by
    rw [List.countP_map]
    rfl
  have hcongr : ∀ c, (loopOf s.ioLoops c = v + 1) ↔ c ≡ v [MOD s.ioLoops] := by
    intro c
    rw [loopOf, if_neg hpool.ne', Nat.succ_inj, Nat.ModEq, Nat.mod_eq_of_lt hv]
  have hmod := Nat.count_modEq_card s.connections.length hpool v
  rw [Nat.mod_eq_of_lt hv] at hmod
  rw [hcount, h.given, List.countP_map, ← hmod, Nat.count]
  refine List.countP_congr fun c _ => ?_
  simp [hcongr c]

end TcpServer

end RpcMuduo
