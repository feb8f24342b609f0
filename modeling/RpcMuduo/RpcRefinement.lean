import RpcMuduo.CallCorrelation
import RpcMuduo.RpcTransport
import RpcMuduo.Simulation

/-!
# The connection of messages under the connection of bytes

Every run of the two ends over TCP, in which the writes do not fail and the frames fit, is a run
of the two ends with a wire of messages between them: a message is on that wire from the moment
`sendInLoop` has it. What holds of calls and replies there holds over TCP.
-/
namespace RpcMuduo.RpcOverTcp
open RpcMeta Run

variable {M : Type*} {codec : ProtobufCodecLite}

def Event.Harmless : Event M → Prop
  | .send _ ret | .done _ _ ret => 0 ≤ ret
  | .client e | .server e => e.Harmless
  | .begin _ | .register _ | .post _ | .postDone _ _ => True

/-- The messages of an end that were sent, and those that wait in its loop. -/
def messages (p : Peer M) : List RpcMetaMessage :=
  p.endpoint.sent ++ p.posted.map Posted.message

/-- No write fails, and no frame is too large for the other end. -/
def StepFits (codec : ProtobufCodecLite) (s : RpcOverTcp M) (e : Event M) : Prop :=
  e.Harmless ∧ ∀ t, step codec s e = some t →
    ∀ m ∈ messages t.client ++ messages t.server, codec.Fits m

instance : (e : Peer.LoopEvent) → Decidable e.Harmless
  | .decode _ | .runPosted _ => inferInstanceAs (Decidable (_ ≤ _))
  | .write _ => inferInstanceAs (Decidable (_ < _))
  | .read _ | .resume => inferInstanceAs (Decidable True)

instance : (e : Event M) → Decidable e.Harmless
  | .send _ _ | .done _ _ _ => inferInstanceAs (Decidable (_ ≤ _))
  | .client e | .server e => inferInstanceAs (Decidable e.Harmless)
  | .begin _ | .register _ | .post _ | .postDone _ _ => inferInstanceAs (Decidable True)

instance (codec : ProtobufCodecLite) (s : RpcOverTcp M) (e : Event M) :
    Decidable (StepFits codec s e) :=
  inferInstanceAs (Decidable (_ ∧ ∀ t ∈ step codec s e, _))

structure Related (codec : ProtobufCodecLite) (s : RpcOverTcp M) (a : RpcConnection M) : Prop where
  client : s.client.Matches a.client
  server : s.server.Matches a.server
  up : Peer.Pipe codec s.client s.server
  down : Peer.Pipe codec s.server s.client
  requests : ∀ posted ∈ s.client.posted, posted.reply? = none ∧ codec.Fits posted.message
  replies : ∀ posted ∈ s.server.posted, posted.request? = none ∧ codec.Fits posted.message
  clientRuns : s.client.exited = false
  serverRuns : s.server.exited = false

section Matches

variable {p : Peer M} {e : Endpoint M}

lemma sent_of_matches (h : p.Matches e) : e.sent = p.endpoint.sent := by
  obtain ⟨registered, pending, -, -, rfl⟩ := h
  rfl

lemma received_of_matches (h : p.Matches e) : e.received = p.endpoint.received := by
  obtain ⟨registered, pending, -, -, rfl⟩ := h
  rfl

end Matches

section Steps

variable {s t : RpcOverTcp M} {a : RpcConnection M}

lemma clientStep_eq_some {f : Peer M → Option (Peer M)} : s.clientStep f = some t ↔
    s.client.exited = false ∧ ∃ q, f s.client = some q ∧ { s with client := q } = t := by
  unfold clientStep
  cases s.client.exited <;> simp

lemma serverStep_eq_some {f : Peer M → Option (Peer M)} : s.serverStep f = some t ↔
    s.server.exited = false ∧ ∃ q, f s.server = some q ∧ { s with server := q } = t := by
  unfold serverStep
  cases s.server.exited <;> simp

/-- The loop thread of the client, by the events of the connection of messages. -/
lemma Related.client_move {ev : Endpoint.Event M} {e' : Endpoint M} (h : Related codec s a)
    (hmove : s.client.Move s.server.endpoint.sent ev)
    (hstep : Endpoint.step a.client ev = some e') :
    ∃ d, RpcConnection.step a d = some { a with client := e' } := by
  have hdo : ∀ {d}, RpcConnection.step a d = a.clientStep ev →
      ∃ d, RpcConnection.step a d = some { a with client := e' } := by
    intro d hd
    exact ⟨d, hd.trans (RpcConnection.clientStep_eq_some.mpr ⟨e', hstep, rfl⟩)⟩
  cases ev with
  | receive m =>
    have hhead : a.toClient.head? = some m := by
      rw [RpcConnection.toClient, sent_of_matches h.server, received_of_matches h.client]
      exact hmove
    exact hdo (d := .clientReceive) (by rw [RpcConnection.step, hhead, Option.bind_some])
  | resume => exact hdo (d := .clientResume) rfl
  | send k => exact hdo (d := .send k) rfl
  | runDone k response =>
    obtain ⟨done, response', rest, hposted⟩ := hmove
    have hnone := (h.requests _ (hposted ▸ List.mem_cons_self)).1
    cases hnone
  | begin args => cases hmove
  | register k => cases hmove

lemma Related.server_move {ev : Endpoint.Event M} {e' : Endpoint M} (h : Related codec s a)
    (hmove : s.server.Move s.client.endpoint.sent ev)
    (hstep : Endpoint.step a.server ev = some e') :
    ∃ d, RpcConnection.step a d = some { a with server := e' } := by
  have hdo : ∀ {d}, RpcConnection.step a d = a.serverStep ev →
      ∃ d, RpcConnection.step a d = some { a with server := e' } := by
    intro d hd
    exact ⟨d, hd.trans (RpcConnection.serverStep_eq_some.mpr ⟨e', hstep, rfl⟩)⟩
  cases ev with
  | receive m =>
    have hhead : a.toServer.head? = some m := by
      rw [RpcConnection.toServer, sent_of_matches h.client, received_of_matches h.server]
      exact hmove
    exact hdo (d := .serverReceive) (by rw [RpcConnection.step, hhead, Option.bind_some])
  | resume => exact hdo (d := .serverResume) rfl
  | runDone k response => exact hdo (d := .runDone k response) rfl
  | send k =>
    obtain ⟨call, rest, hposted⟩ := hmove
    have hnone := (h.replies _ (hposted ▸ List.mem_cons_self)).1
    cases hnone
  | begin args => cases hmove
  | register k => cases hmove

lemma Related.client_moved {q : Peer M} (h : Related codec s a)
    (hmoved : s.client.Moved codec s.server q a.client) :
    ∃ ds b, run RpcConnection.step a ds = some b ∧ Related codec { s with client := q } b := by
  obtain ⟨n, hposted⟩ := hmoved.posted
  have hrelated : ∀ {e'}, q.Matches e' →
      Related codec { s with client := q } { a with client := e' } := by
    intro e' hmatch
    exact ⟨hmatch, h.server, hmoved.out, hmoved.into,
      fun posted hin => h.requests posted (List.mem_of_mem_drop (hposted ▸ hin)), h.replies,
      hmoved.running.trans h.clientRuns, h.serverRuns⟩
  rcases hmoved.matched with hsame | ⟨ev, e', hmove, hstep, hmatch⟩
  · exact ⟨[], a, rfl, hrelated hsame⟩
  · obtain ⟨d, hd⟩ := h.client_move hmove hstep
    exact ⟨[d], _, run_single hd, hrelated hmatch⟩

lemma Related.server_moved {q : Peer M} (h : Related codec s a)
    (hmoved : s.server.Moved codec s.client q a.server) :
    ∃ ds b, run RpcConnection.step a ds = some b ∧ Related codec { s with server := q } b := by
  obtain ⟨n, hposted⟩ := hmoved.posted
  have hrelated : ∀ {e'}, q.Matches e' →
      Related codec { s with server := q } { a with server := e' } := by
    intro e' hmatch
    exact ⟨h.client, hmatch, hmoved.into, hmoved.out, h.requests,
      fun posted hin => h.replies posted (List.mem_of_mem_drop (hposted ▸ hin)),
      h.clientRuns, hmoved.running.trans h.serverRuns⟩
  rcases hmoved.matched with hsame | ⟨ev, e', hmove, hstep, hmatch⟩
  · exact ⟨[], a, rfl, hrelated hsame⟩
  · obtain ⟨d, hd⟩ := h.server_move hmove hstep
    exact ⟨[d], _, run_single hd, hrelated hmatch⟩

/-- Frames that fit are made. -/
lemma isOk_send {m : RpcMetaMessage} (hfits : codec.Fits m) : (codec.send m).isOk = true := by
  simp only [ProtobufCodecLite.Fits, ProtobufCodecLite.kChecksumLen,
    ProtobufCodecLite.kMaxMessageLen] at hfits
  rw [codec.send_eq_frame m (by simp only [ProtobufCodecLite.kChecksumLen]; omega)]
  rfl

lemma Related.begin (h : Related codec s a) (args : CallArgs M) :
    ∃ ds b, run RpcConnection.step a ds = some b ∧ Related codec { s with
      client := { s.client with endpoint := s.client.endpoint.beginCall args } } b := by
  have hd : RpcConnection.step a (.begin args) =
      some { a with client := a.client.beginCall args } := rfl
  exact ⟨[.begin args], _, run_single hd, Peer.matches_beginCall h.client args, h.server,
    h.up.of_eq_src rfl rfl, h.down.of_eq rfl rfl rfl rfl, h.requests, h.replies,
    h.clientRuns, h.serverRuns⟩

lemma Related.register (h : Related codec s a) {k : ℕ} {call : Call M}
    (hk : s.client.endpoint.started[k]? = some call) :
    ∃ ds b, run RpcConnection.step a ds = some b ∧ Related codec { s with
      client := { s.client with endpoint := s.client.endpoint.registerCall k call } } b := by
  obtain ⟨e', hstep, hmatch⟩ := Peer.matches_registerCall h.client hk
  have hd : RpcConnection.step a (.register k) = some { a with client := e' } :=
    RpcConnection.clientStep_eq_some.mpr ⟨e', hstep, rfl⟩
  exact ⟨[.register k], _, run_single hd, hmatch, h.server,
    h.up.of_eq_src rfl rfl, h.down.of_eq rfl rfl rfl rfl, h.requests, h.replies,
    h.clientRuns, h.serverRuns⟩

lemma Related.post (h : Related codec s a) {k : ℕ} {call : Call M}
    (hk : s.client.endpoint.registered[k]? = some call)
    (hfits : codec.Fits (Posted.request call).message)
    {frame : Except ProtobufCodecLite.EncodeError Bytes} (hframe : frame.isOk = true) :
    Related codec { s with
      client := s.client.post
        { s.client.endpoint with registered := s.client.endpoint.registered.eraseIdx k }
        (.request call) frame } a where
  client := Peer.matches_post_request h.client hk frame
  server := h.server
  up := h.up.of_eq_src rfl rfl
  down := h.down.of_eq rfl rfl rfl rfl
  requests := by
    intro posted hin
    rcases List.mem_append.mp hin with hin | hin
    · exact h.requests posted hin
    · rw [List.mem_singleton.mp hin]
      exact ⟨rfl, hfits⟩
  replies := h.replies
  clientRuns := by
    rw [Peer.post, hframe]
    exact (Bool.or_false _).trans h.clientRuns
  serverRuns := h.serverRuns

lemma Related.postDone (h : Related codec s a) {k : ℕ} {done : PendingDone M}
    (hk : s.server.endpoint.pending[k]? = some done) {response : M}
    (hfits : codec.Fits (Posted.reply done response).message)
    {frame : Except ProtobufCodecLite.EncodeError Bytes} (hframe : frame.isOk = true) :
    Related codec { s with
      server := s.server.post
        { s.server.endpoint with pending := s.server.endpoint.pending.eraseIdx k }
        (.reply done response) frame } a where
  client := h.client
  server := Peer.matches_post_reply h.server hk response frame
  up := h.up.of_eq rfl rfl rfl rfl
  down := h.down.of_eq_src rfl rfl
  requests := h.requests
  replies := by
    intro posted hin
    rcases List.mem_append.mp hin with hin | hin
    · exact h.replies posted hin
    · rw [List.mem_singleton.mp hin]
      exact ⟨rfl, hfits⟩
  clientRuns := h.clientRuns
  serverRuns := by
    rw [Peer.post, hframe]
    exact (Bool.or_false _).trans h.serverRuns

lemma Related.send (h : Related codec s a) {k : ℕ} {call : Call M} {ret : ℤ} {q : Peer M}
    (hk : s.client.endpoint.registered[k]? = some call) (h0 : 0 ≤ ret)
    (hq : s.client.advance codec (s.client.endpoint.sendCall k call) ret = some q)
    (hfits : ∀ m ∈ q.endpoint.sent, codec.Fits m) :
    ∃ ds b, run RpcConnection.step a ds = some b ∧ Related codec { s with client := q } b := by
  obtain ⟨k', e', hstep, hmatch⟩ := Peer.matches_sendCall h.client hk
  obtain ⟨hsent, hpipe⟩ := Peer.advance_pipes rfl h0 hq hfits h.up
  have heq := hsent.eq
  have hd : RpcConnection.step a (.send k') = some { a with client := e' } :=
    RpcConnection.clientStep_eq_some.mpr ⟨e', hstep, rfl⟩
  exact ⟨[.send k'], _, run_single hd, hmatch.of_eq (by rw [heq]) (by rw [heq]), h.server, hpipe,
    h.down.of_eq (by rw [heq]; rfl) (by rw [heq]) (by rw [heq]) (by rw [heq]),
    by rw [heq]; exact h.requests, h.replies, by rw [heq]; exact h.clientRuns, h.serverRuns⟩

lemma Related.done (h : Related codec s a) {k : ℕ} {done : PendingDone M} {response : M} {ret : ℤ}
    {q : Peer M} (hk : s.server.endpoint.pending[k]? = some done) (h0 : 0 ≤ ret)
    (hq : s.server.advance codec (s.server.endpoint.doneCallback k done response) ret = some q)
    (hfits : ∀ m ∈ q.endpoint.sent, codec.Fits m) :
    ∃ ds b, run RpcConnection.step a ds = some b ∧ Related codec { s with server := q } b := by
  obtain ⟨k', e', hstep, hmatch⟩ := Peer.matches_doneCallback h.server hk response
  obtain ⟨hsent, hpipe⟩ := Peer.advance_pipes rfl h0 hq hfits h.down
  have heq := hsent.eq
  have hd : RpcConnection.step a (.runDone k' response) = some { a with server := e' } :=
    RpcConnection.serverStep_eq_some.mpr ⟨e', hstep, rfl⟩
  exact ⟨[.runDone k' response], _, run_single hd, h.client,
    hmatch.of_eq (by rw [heq]) (by rw [heq]),
    h.up.of_eq (by rw [heq]; rfl) (by rw [heq]) (by rw [heq]) (by rw [heq]), hpipe, h.requests,
    by rw [heq]; exact h.replies, h.clientRuns, by rw [heq]; exact h.serverRuns⟩

/-- A step over TCP is at most one step of the connection of messages. -/
theorem step_simulates (hframes : codec.Frames) (htag : codec.TagInt) :
    Simulates (step codec) (StepFits codec) RpcConnection.step
      (Related codec (M := M)) := by
  intro s e t a h hguard hstep
  obtain ⟨hharmless, hfits⟩ := hguard
  have hsent : ∀ m ∈ messages t.client ++ messages t.server, codec.Fits m := hfits t hstep
  cases e with
  | begin args =>
    rw [step] at hstep
    obtain ⟨-, q, hq, rfl⟩ := clientStep_eq_some.mp hstep
    exact Option.some.inj hq ▸ h.begin args
  | register k =>
    rw [step] at hstep
    obtain ⟨-, q, hq, rfl⟩ := clientStep_eq_some.mp hstep
    obtain ⟨call, hk, rfl⟩ := Option.map_eq_some_iff.mp hq
    exact h.register hk
  | post k =>
    rw [step] at hstep
    obtain ⟨-, q, hq, rfl⟩ := clientStep_eq_some.mp hstep
    obtain ⟨call, hk, rfl⟩ := Option.map_eq_some_iff.mp hq
    have hfit : codec.Fits (Posted.request call).message :=
      hsent _ (by simp [messages, Peer.post])
    exact ⟨[], a, rfl, h.post hk hfit (isOk_send hfit)⟩
  | send k ret =>
    rw [step] at hstep
    obtain ⟨-, q, hq, rfl⟩ := clientStep_eq_some.mp hstep
    obtain ⟨call, hk, hq⟩ := Option.bind_eq_some_iff.mp hq
    exact h.send hk hharmless hq fun m hm => hsent m (by simp [messages, hm])
  | postDone k response =>
    rw [step] at hstep
    obtain ⟨-, q, hq, rfl⟩ := serverStep_eq_some.mp hstep
    obtain ⟨done, hk, rfl⟩ := Option.map_eq_some_iff.mp hq
    have hfit : codec.Fits (Posted.reply done response).message :=
      hsent _ (by simp [messages, Peer.post])
    exact ⟨[], a, rfl, h.postDone hk hfit (isOk_send hfit)⟩
  | done k response ret =>
    rw [step] at hstep
    obtain ⟨-, q, hq, rfl⟩ := serverStep_eq_some.mp hstep
    obtain ⟨done, hk, hq⟩ := Option.bind_eq_some_iff.mp hq
    exact h.done hk hharmless hq fun m hm => hsent m (by simp [messages, hm])
  | client e =>
    rw [step] at hstep
    obtain ⟨-, q, hq, rfl⟩ := clientStep_eq_some.mp hstep
    exact h.client_moved (Peer.loopStep_moved hframes htag h.client h.up h.down hharmless hq
      fun m hm => hsent m (by simp [messages, hm]))
  | server e =>
    rw [step] at hstep
    obtain ⟨-, q, hq, rfl⟩ := serverStep_eq_some.mp hstep
    exact h.server_moved (Peer.loopStep_moved hframes htag h.server h.down h.up hharmless hq
      fun m hm => hsent m (by simp [messages, hm]))

end Steps

section Initial

variable (codec) (clientId serverId : CallId) (services : List (Service M)) (clientfd serverfd : ℤ)

lemma pipe_initial (e e' : Endpoint M) (hsent : e.sent = []) (hreceived : e'.received = [])
    (fd fd' : ℤ) : Peer.Pipe codec (Peer.new e fd) (Peer.new e' fd') where
  fits := by simp [Peer.new, hsent]
  stream := by
    simp [Peer.new, hsent, TcpConnection.new, TcpConnection.stream, TcpConnection.written]
  tracks := TcpConnection.tracks_new fd
  received := by simp [Peer.new, hreceived]
  taken := Nat.zero_le _
  arrived := by simp [Peer.new, hreceived]
  waiting := by
    intro _
    rw [Peer.new, Buffer.readable_new]
    exact codec.decoder.next_nil

lemma related_initial : Related codec (initial clientId serverId services clientfd serverfd)
    (RpcConnection.initial clientId serverId services) where
  client := Peer.matches_new _ clientfd
  server := Peer.matches_new _ serverfd
  up := pipe_initial codec _ _ rfl rfl clientfd serverfd
  down := pipe_initial codec _ _ rfl rfl serverfd clientfd
  requests := by simp [initial, Peer.new]
  replies := by simp [initial, Peer.new]
  clientRuns := rfl
  serverRuns := rfl

end Initial

open ProtobufCodecLite (kMaxMessageLen kChecksumLen rpcCodec frames_generated)

section Generated

variable {υ : Type} {w : WireFormat υ} {clientId serverId : CallId} {services : List (Service M)}
  {clientfd serverfd : ℤ} {es : List (Event M)} {s : RpcOverTcp M}

lemma rpcCodec_tagInt (w : WireFormat υ) : (rpcCodec w).TagInt := by
  simp [ProtobufCodecLite.TagInt, rpcCodec, kChecksumLen]

/-- A run over TCP with the generated code, as a run of the connection of messages. -/
lemma related_run (hmax : kMaxMessageLen ≤ w.maxStringSize)
    (hguard : Guarded (step (rpcCodec w)) (StepFits (rpcCodec w))
      (initial clientId serverId services clientfd serverfd) es)
    (hrun : run (step (rpcCodec w)) (initial clientId serverId services clientfd serverfd) es =
      some s) : ∃ ds a,
    run RpcConnection.step (RpcConnection.initial clientId serverId services) ds = some a ∧
      Related (rpcCodec w) s a :=
  (step_simulates (frames_generated hmax) (rpcCodec_tagInt w)).run
    (related_initial _ clientId serverId services clientfd serverfd) hguard hrun

end Generated

/-- The codec, the services and the sockets of the runs below. -/
abbrev testStep : RpcOverTcp Bytes → Event Bytes → Option (RpcOverTcp Bytes) :=
  step (rpcCodec ProtobufWire.wireFormat)

abbrev testInitial : RpcOverTcp Bytes := initial 0 9 [⟨[69], [Endpoint.echo]⟩] 3 4

/-- A call whose request is posted and goes out in two writes, is read in three parts, and comes
back in a reply that a thread of the service posts. -/
def postedCall : List (Event Bytes) :=
  [.begin ⟨Endpoint.echo, [5], ⟨some 0, some 10⟩⟩, .register 0, .post 0, .client (.runPosted 20),
    .server (.read 7), .server (.decode 0), .client (.write 12), .server (.read 13),
    .server (.decode 0), .server (.read 12), .server (.decode 0), .server .resume,
    .server (.decode 0), .postDone 0 [5], .server (.runPosted 26), .client (.read 26),
    .client (.decode 0)]

lemma postedCall_fits : Guarded testStep (StepFits (rpcCodec ProtobufWire.wireFormat)) testInitial
    postedCall := by
  decide +kernel

lemma postedCall_taken : ∃ s message, run testStep testInitial postedCall = some s ∧
    s.client.endpoint.frame = some (.taken ⟨some 0, some 10⟩ message) ∧
    message.response = some [5] ∧ s.client.endpoint.calls.length < 2 ^ 64 := by
  have htaken : (run testStep testInitial postedCall).map (fun s =>
      (s.client.endpoint.frame, s.client.endpoint.calls.length)) =
      some (some (.taken ⟨some 0, some 10⟩
        (RpcChannel.doneCallback Endpoint.echo [5] 1)), 1) := by
    decide +kernel
  obtain ⟨s, hs, hfields⟩ := Option.map_eq_some_iff.mp htaken
  obtain ⟨hframe, hcalls⟩ := Prod.mk.inj hfields
  exact ⟨s, _, hs, hframe, rfl, by omega⟩

/-- Every run over TCP in which no write fails and every frame fits is a run of the connection of
messages, however the bytes are cut and whichever threads send: neither process ends, the
endpoints are those of that run up to what still waits in a loop, and what went into the
connection at one end is, as bytes, what came out at the other and what is on the way. -/
theorem tcp_run_refines {υ : Type} (w : WireFormat υ) (hmax : kMaxMessageLen ≤ w.maxStringSize)
    (clientId serverId : CallId) (services : List (Service M)) (clientfd serverfd : ℤ)
    (es : List (Event M)) (s : RpcOverTcp M)
    (hguard : Guarded (step (rpcCodec w)) (StepFits (rpcCodec w))
      (initial clientId serverId services clientfd serverfd) es)
    (hrun : run (step (rpcCodec w)) (initial clientId serverId services clientfd serverfd) es =
      some s) : ∃ ds a,
    run RpcConnection.step (RpcConnection.initial clientId serverId services) ds = some a ∧
      Related (rpcCodec w) s a :=
  related_run hmax hguard hrun

theorem tcp_run_refines_postedCall : ∃ s ds a, run testStep testInitial postedCall = some s ∧
    run RpcConnection.step (RpcConnection.initial 0 9 [⟨[69], [Endpoint.echo]⟩]) ds = some a ∧
      Related (rpcCodec ProtobufWire.wireFormat) s a := by
  obtain ⟨s, message, hs, -⟩ := postedCall_taken
  obtain ⟨ds, a, hds, hrelated⟩ := tcp_run_refines ProtobufWire.wireFormat (by decide) 0 9
    [⟨[69], [Endpoint.echo]⟩] 3 4 postedCall s postedCall_fits hs
  exact ⟨s, ds, a, hs, hds, hrelated⟩

/-- Over TCP as on the connection of messages, with fewer than `2 ^ 64` calls: every response that
the client receives is what a service made of the request of the call with its id; the entry that
the loop thread has taken for it is the one of that call; and no closure runs more often than it
was passed to a call. -/
theorem tcp_calls_correlate {υ : Type} (w : WireFormat υ) (hmax : kMaxMessageLen ≤ w.maxStringSize)
    (clientId serverId : CallId) (services : List (Service M)) (clientfd serverfd : ℤ)
    (es : List (Event M)) (s : RpcOverTcp M)
    (hguard : Guarded (step (rpcCodec w)) (StepFits (rpcCodec w))
      (initial clientId serverId services clientfd serverfd) es)
    (hrun : run (step (rpcCodec w)) (initial clientId serverId services clientfd serverfd) es =
      some s) (hcalls : s.client.endpoint.calls.length < 2 ^ 64) :
    (∀ m ∈ s.client.endpoint.received, ∀ bytes, m.response = some bytes →
      ∃ call ∈ s.client.endpoint.calls, call.id = m.id ∧ ∃ p v,
        RpcConnection.AnswerOf services ⟨s.client.endpoint, s.server.endpoint⟩ call bytes p v) ∧
    (∀ out m bytes, s.client.endpoint.frame = some (.taken out m) → m.response = some bytes →
      ∃ call ∈ s.client.endpoint.calls, call.id = m.id ∧ call.args.out = out ∧ ∃ p v,
        RpcConnection.AnswerOf services ⟨s.client.endpoint, s.server.endpoint⟩ call bytes p v) ∧
    ∀ d, s.client.endpoint.log.count (.run d) ≤
      s.client.endpoint.calls.countP fun call => call.args.out.done == some d := by
  obtain ⟨ds, a, hds, hrelated⟩ := related_run hmax hguard hrun
  obtain ⟨registered, pending, -, -, hclient⟩ := hrelated.client
  obtain ⟨registered', pending', -, -, hserver⟩ := hrelated.server
  have hcallsEq : a.client.calls = s.client.endpoint.calls := by rw [hclient]
  have hbalanced := RpcConnection.balanced_run hds (hcallsEq ▸ hcalls)
  have hanswer : ∀ {call bytes p v}, RpcConnection.AnswerOf services a call bytes p v →
      RpcConnection.AnswerOf services ⟨s.client.endpoint, s.server.endpoint⟩ call bytes p v := by
    intro call bytes p v h
    have hanswered := h.answered
    rw [hserver] at hanswered
    exact ⟨hanswered, h.message, h.registered, h.fullName, h.method, h.name, h.request, h.bytes⟩
  have hreply : ∀ m ∈ s.client.endpoint.received, ∀ bytes, m.response = some bytes →
      ∃ call ∈ s.client.endpoint.calls, call.id = m.id ∧ ∃ p v,
        RpcConnection.AnswerOf services a call bytes p v := by
    intro m hm bytes hb
    rw [← received_of_matches hrelated.client] at hm
    rw [← hcallsEq]
    exact RpcConnection.answer_of_reply hbalanced (hbalanced.wire.clientReceived.subset hm) hb
  obtain ⟨answers, hledger⟩ := hbalanced.ledger
  refine ⟨?_, ?_, ?_⟩
  · intro m hm bytes hb
    obtain ⟨call, hcall, hid, p, v, h⟩ := hreply m hm bytes hb
    exact ⟨call, hcall, hid, p, v, hanswer h⟩
  · intro out m bytes hframe hb
    have hframe' : a.client.frame = some (.taken out m) := by
      rw [hclient]
      exact hframe
    have hin := hbalanced.wire.inHand out m (Or.inl hframe')
    rw [received_of_matches hrelated.client] at hin
    obtain ⟨call, hcall, hid, p, v, h⟩ := hreply m hin bytes hb
    have hargs : call.args.out = out := by
      refine RpcConnection.out_of_call hledger (hcallsEq ▸ hcalls) (hcallsEq ▸ hcall) (Or.inr ?_)
      rw [hframe', hid]
      exact List.mem_singleton_self _
    exact ⟨call, hcall, hid, hargs, p, v, hanswer h⟩
  · intro d
    have hcount := RpcConnection.count_run_le d hledger
    rw [hclient] at hcount
    exact hcount

theorem tcp_calls_correlate_postedCall : ∃ s, run testStep testInitial postedCall = some s ∧
    ∃ call ∈ s.client.endpoint.calls, call.args.out = ⟨some 0, some 10⟩ ∧ ∃ p v,
      RpcConnection.AnswerOf [⟨[69], [Endpoint.echo]⟩] ⟨s.client.endpoint, s.server.endpoint⟩
        call [5] p v := by
  obtain ⟨s, message, hs, hframe, hresponse, hcalls⟩ := postedCall_taken
  obtain ⟨-, htaken, -⟩ := tcp_calls_correlate ProtobufWire.wireFormat (by decide) 0 9
    [⟨[69], [Endpoint.echo]⟩] 3 4 postedCall s postedCall_fits hs hcalls
  obtain ⟨call, hcall, -, hargs, hanswer⟩ := htaken _ message [5] hframe hresponse
  exact ⟨s, hs, call, hcall, hargs, hanswer⟩

end RpcMuduo.RpcOverTcp
