import RpcMuduo.RpcServer
import RpcMuduo.ServerReplies

/-!
# Isolation of the connections of a server

What is sent on a connection depends on its own inputs, up to the end of the process. Bytes
that decode without an error do not end it.
-/
namespace RpcMuduo.RpcServer
open RpcMeta StreamDecoder ProtobufCodecLite SharedFate Endpoint

variable {M : Type*} (server : RpcServer M)

/-- The replies of the services and the error replies are short enough to be framed. -/
structure Encodable : Prop where
  done : ∀ request target,
    (RpcChannel.new 0 (some (registerServices server.services))).dispatch request = .ok target →
    ∀ id, ∃ frame, server.codec.send
      (RpcChannel.doneCallback target.method (server.handler target).response id) = .ok frame
  error : ∀ request error, ∃ frame,
    server.codec.send (RpcChannel.errorReply request error) = .ok frame

/-- The bytes read on an open connection. -/
def receivedOpen : List Input → Bytes
  | [] => []
  | .accept _ :: is => receivedOpen is
  | .read data :: is => if data = [] then [] else data ++ receivedOpen is
  | .runDone _ :: is => receivedOpen is
  | .close :: _ => []

/-- The bytes read on a connection from its acceptance to its end. -/
def received : List Input → Bytes
  | [] => []
  | .accept _ :: is => receivedOpen is
  | .read _ :: is => received is
  | .runDone _ :: is => received is
  | .close :: is => received is

/-- The stream that a connection receives has no frame that fails to decode. -/
def Clean (a : ℕ) (es : List (ℕ × Input)) : Prop :=
  (drain server.codec.decoder (received (inputs a es))).error = none

section Frames

variable {server}

variable (server) in
lemma tagFits : server.codec.TagFits := by
  simp only [TagFits, codec, kChecksumLen, kMaxMessageLen, List.length_cons, List.length_nil]
  decide

lemma frames_advance (s : Session M) (e : Endpoint M) :
    s.frames <+: (server.advance s e).frames := List.prefix_append _ _

lemma frames_messageCallback (s : Session M) (message : RpcMetaMessage) :
    s.frames <+: (server.messageCallback s message).frames := by
  unfold messageCallback
  split
  · exact List.prefix_refl _
  · exact frames_advance s _

lemma frames_foldl (messages : List RpcMetaMessage) (s : Session M) :
    s.frames <+: (messages.foldl server.messageCallback s).frames := by
  induction messages generalizing s with
  | nil => exact List.prefix_refl _
  | cons message messages ih => exact (frames_messageCallback s message).trans (ih _)

lemma frames_deliver (r : Drained UInt8 RpcMetaMessage ProtobufCodecLite.ErrorCode)
    (s : Session M) : s.frames <+: (deliver server.messageCallback errorCallback r s).frames := by
  unfold deliver
  cases r.error with
  | none => exact frames_foldl r.items s
  | some e => exact frames_foldl r.items s

variable (server) in
/-- A read hands the frames that it completes to the session. -/
lemma handleRead_eq (c : Connection M) {data : Bytes} (h : data ≠ []) :
    ∃ buf, server.handleRead c data =
        { c with
          inBuf := buf
          session := deliver server.messageCallback errorCallback
            (drain server.codec.decoder (c.inBuf.readable ++ data)) c.session } ∧
      buf.readable = (drain server.codec.decoder (c.inBuf.readable ++ data)).rest := by
  obtain ⟨buf, hmessage, hrest⟩ := onMessage_drain server.messageCallback errorCallback
    (tagFits server).tagInt (c.inBuf.readFd data) c.session
  rw [Buffer.readable_readFd] at hmessage hrest
  exact ⟨buf, by rw [handleRead, if_neg h, hmessage], hrest⟩

/-- No input takes a frame back. -/
lemma frames_next (c : Option (Connection M)) (i : Input) :
    frames c <+: frames (server.next c i) := by
  cases c with
  | none => cases i <;> exact List.nil_prefix
  | some c =>
    cases i with
    | accept id => exact List.prefix_refl _
    | read data =>
      simp only [next]
      split
      · exact List.prefix_refl _
      · by_cases hdata : data = []
        · rw [handleRead, if_pos hdata]
          exact List.prefix_refl _
        · obtain ⟨buf, heq, -⟩ := handleRead_eq server c hdata
          rw [heq]
          exact frames_deliver _ _
    | runDone k =>
      simp only [next, frames, Option.elim_some, runDone]
      split
      · exact frames_advance _ _
      · exact List.prefix_refl _
    | close => exact List.prefix_refl _

end Frames

section Healthy

/-- The channel offers the services of the server, and the closures that they hold are for
requests dispatched to them. -/
structure Serving (e : Endpoint M) : Prop where
  services : e.channel.services = some (registerServices server.services)
  pending : ∀ p ∈ e.pending, ∃ request,
    (RpcChannel.new 0 (some (registerServices server.services))).dispatch request = .ok p.target

/-- From `e` to `e'` the endpoint goes on serving and sends only what can be framed. -/
structure Extends (e e' : Endpoint M) : Prop where
  serving : server.Serving e'
  sent : ∃ new, e'.sent = e.sent ++ new ∧ ∀ m ∈ new, ∃ frame, server.codec.send m = .ok frame

/-- The session has not ended the process and goes on serving. -/
structure Healthy (s : Session M) : Prop where
  running : s.exited = false
  serving : server.Serving s.endpoint

variable {server}

lemma Extends.trans {e e' e'' : Endpoint M} (h : server.Extends e e')
    (h' : server.Extends e' e'') : server.Extends e e'' := by
  obtain ⟨new, hsent, hnew⟩ := h.sent
  obtain ⟨new', hsent', hnew'⟩ := h'.sent
  refine ⟨h'.serving, new ++ new', by rw [hsent', hsent, List.append_assoc], ?_⟩
  intro m hm
  rcases List.mem_append.mp hm with hm | hm
  · exact hnew m hm
  · exact hnew' m hm

lemma extends_same {e e' : Endpoint M} (h : server.Serving e') (hsent : e'.sent = e.sent) :
    server.Extends e e' :=
  ⟨h, [], by rw [hsent, List.append_nil], by simp⟩

lemma extends_one {e e' : Endpoint M} (h : server.Serving e') {m : RpcMetaMessage}
    (hsent : e'.sent = e.sent ++ [m]) (hm : ∃ frame, server.codec.send m = .ok frame) :
    server.Extends e e' := by
  refine ⟨h, [m], hsent, ?_⟩
  intro m' hm'
  rw [List.mem_singleton.mp hm']
  exact hm

lemma extends_onRpcMessage (hserver : server.Encodable) {e : Endpoint M} (h : server.Serving e)
    (message : RpcMetaMessage) : server.Extends e (e.onRpcMessage message) := by
  unfold onRpcMessage
  cases message.type with
  | RESPONSE =>
    exact extends_same ⟨(RpcChannel.services_takeOutstanding _ _).trans h.services, h.pending⟩ rfl
  | ERROR => exact extends_same ⟨h.services, h.pending⟩ rfl
  | REQUEST =>
    have hdispatch : e.channel.dispatch message =
        (RpcChannel.new 0 (some (registerServices server.services))).dispatch message :=
      dispatch_congr h.services
    unfold onRequest
    rw [hdispatch]
    cases hd : (RpcChannel.new 0 (some (registerServices server.services))).dispatch message with
    | ok target =>
      refine extends_same ⟨h.services, ?_⟩ rfl
      intro p hp
      rcases List.mem_append.mp hp with hp | hp
      · exact h.pending p hp
      · rw [List.mem_singleton.mp hp]
        exact ⟨message, hd⟩
    | error error => exact extends_one ⟨h.services, h.pending⟩ rfl (hserver.error message error)

lemma extends_doneCallback (hserver : server.Encodable) {e : Endpoint M} (h : server.Serving e)
    (k : ℕ) {p : PendingDone M} (hp : p ∈ e.pending) :
    server.Extends e (e.doneCallback k p (server.handler p.target).response) := by
  obtain ⟨request, hd⟩ := h.pending p hp
  refine extends_one ⟨h.services, ?_⟩ rfl (hserver.done request p.target hd p.id)
  intro q hq
  exact h.pending q (List.mem_of_mem_eraseIdx hq)

lemma extends_runInside (hserver : server.Encodable) {e : Endpoint M} (h : server.Serving e) :
    server.Extends e (server.runInside e) := by
  unfold runInside
  split
  · rename_i p _ hlast
    by_cases hinside : (server.handler p.target).inside = true
    · simp only [hinside, ↓reduceIte]
      exact extends_doneCallback hserver h _ (List.mem_of_getLast? hlast)
    · simp only [hinside, Bool.false_eq_true, ↓reduceIte]
      exact extends_same h rfl
  · exact extends_same h rfl

lemma extends_settle {e : Endpoint M} (h : server.Serving e) : server.Extends e e.settle := by
  unfold settle
  cases e.frame with
  | none => exact extends_same h rfl
  | some frame => cases frame <;> exact extends_same ⟨h.services, h.pending⟩ rfl

lemma sendAll_ok {send : RpcMetaMessage → Except EncodeError Bytes}
    {messages : List RpcMetaMessage} (h : ∀ m ∈ messages, ∃ frame, send m = .ok frame) :
    (sendAll send messages).2 = false := by
  induction messages with
  | nil => rfl
  | cons m messages ih =>
    obtain ⟨frame, hframe⟩ := h m List.mem_cons_self
    have hrest := ih fun m' hm' => h m' (List.mem_cons_of_mem _ hm')
    simp only [sendAll, hframe, hrest]

lemma healthy_advance {s : Session M} {e : Endpoint M} (h : server.Extends s.endpoint e) :
    server.Healthy (server.advance s e) := by
  obtain ⟨new, hsent, hnew⟩ := h.sent
  refine ⟨?_, h.serving⟩
  rw [advance, hsent, List.drop_left]
  exact sendAll_ok hnew

lemma healthy_messageCallback (hserver : server.Encodable) {s : Session M}
    (h : server.Healthy s) (message : RpcMetaMessage) :
    server.Healthy (server.messageCallback s message) := by
  have h1 := extends_onRpcMessage hserver h.serving message
  have h2 := h1.trans (extends_runInside hserver h1.serving)
  have h3 := h2.trans (extends_settle h2.serving)
  have h4 := h3.trans (extends_settle h3.serving)
  rw [messageCallback, if_neg (by simp [h.running])]
  exact healthy_advance h4

/-- A pass without an error leaves the session healthy. -/
lemma healthy_deliver (hserver : server.Encodable) {s : Session M} (h : server.Healthy s)
    {r : Drained UInt8 RpcMetaMessage ProtobufCodecLite.ErrorCode} (hr : r.error = none) :
    server.Healthy (deliver server.messageCallback errorCallback r s) := by
  have hfold : ∀ (messages : List RpcMetaMessage) (s : Session M), server.Healthy s →
      server.Healthy (messages.foldl server.messageCallback s) := by
    intro messages
    induction messages with
    | nil => exact fun s h => h
    | cons message messages ih =>
      exact fun s h => ih _ (healthy_messageCallback hserver h message)
  rw [deliver, hr]
  exact hfold r.items s h

lemma healthy_runDone (hserver : server.Encodable) {s : Session M} (h : server.Healthy s)
    (k : ℕ) : server.Healthy (server.runDone s k) := by
  unfold runDone
  split
  · rename_i p hp
    exact healthy_advance (extends_doneCallback hserver h.serving k (List.mem_of_getElem? hp))
  · exact h

lemma healthy_newConnection (id : CallId) : server.Healthy (server.newConnection id).session :=
  ⟨rfl, rfl, by simp [newConnection, Endpoint.initial]⟩

/-- A closed connection reads nothing more and does not end the process. -/
lemma runPart_closed (hserver : server.Encodable) {c : Connection M} (h : server.Healthy c.session)
    (hclosed : c.closed = true) (is : List Input) :
    stop (runPart server.next stop (some c) is) = false := by
  induction is generalizing c with
  | nil => exact h.running
  | cons i is ih =>
    have hstop : stop (some c) = false := h.running
    rw [runPart_cons hstop]
    cases i with
    | accept id => exact ih h hclosed
    | read data =>
      simp only [next, hclosed, ↓reduceIte]
      exact ih h hclosed
    | runDone k => exact ih (healthy_runDone hserver h k) hclosed
    | close => exact ih h rfl

/-- While it is open, a connection whose stream decodes without an error does not end the
process. What is buffered is what the decoder has left of the bytes so far. -/
lemma runPart_open (hserver : server.Encodable) {c : Connection M} (h : server.Healthy c.session)
    (hopen : c.closed = false) {xs : Bytes}
    (hbuf : c.inBuf.readable = (drain server.codec.decoder xs).rest) (is : List Input)
    (hclean : (drain server.codec.decoder (xs ++ receivedOpen is)).error = none) :
    stop (runPart server.next stop (some c) is) = false := by
  induction is generalizing c xs with
  | nil => exact h.running
  | cons i is ih =>
    have hstop : stop (some c) = false := h.running
    rw [runPart_cons hstop]
    cases i with
    | accept id => exact ih h hopen hbuf hclean
    | read data =>
      simp only [next, hopen, Bool.false_eq_true, ↓reduceIte]
      by_cases hdata : data = []
      · rw [handleRead, if_pos hdata]
        exact runPart_closed (c := { c with closed := true }) hserver h rfl is
      · obtain ⟨buf, heq, hrest⟩ := handleRead_eq server c hdata
        obtain ⟨-, herror, hdrain⟩ := drain_append server.codec.decoder xs data
        rw [receivedOpen, if_neg hdata, ← List.append_assoc] at hclean
        have hnone := drain_error_prefix _ hclean
        rw [herror, ← hbuf] at hnone
        rw [heq]
        refine ih (healthy_deliver hserver h hnone) hopen ?_ hclean
        rw [hrest, hbuf, hdrain]
    | runDone k => exact ih (healthy_runDone hserver h k) hopen hbuf hclean
    | close => exact runPart_closed (c := { c with closed := true }) hserver h rfl is

/-- A connection whose stream decodes without an error does not end the process. -/
theorem runPart_clean (hserver : server.Encodable) (is : List Input)
    (hclean : (drain server.codec.decoder (received is)).error = none) :
    stop (runPart server.next stop none is) = false := by
  induction is with
  | nil => rfl
  | cons i is ih =>
    rw [runPart_cons rfl]
    cases i with
    | accept id =>
      have hbuf : (server.newConnection id).inBuf.readable =
          (drain server.codec.decoder []).rest := by
        rw [drain_more _ server.codec.decoder.next_nil]
        exact Buffer.readable_new _
      exact runPart_open hserver (healthy_newConnection id) rfl hbuf is hclean
    | read data => exact ih hclean
    | runDone k => exact ih hclean
    | close => exact ih hclean

end Healthy

lemma alive_initial : Alive stop (initial (M := M)) := ⟨rfl, fun _ => rfl⟩

lemma inputs_filter_ne {a b : ℕ} (hb : b ≠ a) (es : List (ℕ × Input)) :
    inputs b (es.filter fun e => e.1 ≠ a) = inputs b es := by
  have hfilter : ((es.filter fun e => e.1 ≠ a).filter fun e => e.1 = b) =
      es.filter fun e => e.1 = b := by
    rw [List.filter_filter]
    refine List.filter_congr ?_
    intro e _
    by_cases he : e.1 = b
    · simp [he, hb]
    · simp [he]
  rw [inputs, hfilter, inputs]

/-- A server on which the method `echo` answers at once. -/
def testServer : RpcServer Bytes where
  runtime := testRuntime
  services := [⟨[69], [echo]⟩]
  handler target := ⟨target.request, true⟩

/-- Connections 1 and 2 are accepted, 1 receives `data` and 2 receives a request. -/
def testEvents (data : Bytes) : List (ℕ × Input) :=
  [(1, .accept 0), (2, .accept 0), (1, .read data),
    (2, .read (testServer.codec.frame testMessage))]

lemma testServer_encodable : testServer.Encodable := by
  have hsend : ∀ message, ∃ frame, testServer.codec.send message = .ok frame := by
    intro message
    refine ⟨_, testServer.codec.send_eq_frame message ?_⟩
    have htag : testServer.codec.tag.length = 4 := rfl
    have hruntime : testServer.codec.runtime = testRuntime := rfl
    have hlen : (testRuntime.serialize message).length ≤ 13 := by
      by_cases h : message = testReply <;> simp [testRuntime, h]
    rw [htag, hruntime, kChecksumLen]
    omega
  exact ⟨fun _ _ _ _ => hsend _, fun _ _ => hsend _⟩

end RpcMuduo.RpcServer
