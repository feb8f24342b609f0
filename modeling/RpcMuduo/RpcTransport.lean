import RpcMuduo.RpcConnection
import RpcMuduo.RpcOverTcp
import RpcMuduo.WriteInterest

/-!
# Steps of an end over TCP

What each step of an end is to its endpoint, and to the bytes that go out and come in: while the
writes do not fail and the frames fit, bytes are the frames of messages on their way.
-/
namespace RpcMuduo
open OutgoingStream (WriteReturns)
open RpcMeta Run StreamDecoder

variable {M : Type*} {codec : ProtobufCodecLite}

namespace Peer

/-- The endpoint as it is while what was posted has not been sent. -/
def Matches (p : Peer M) (e : Endpoint M) : Prop :=
  ∃ registered pending,
    registered.Perm (p.endpoint.registered ++ p.posted.filterMap Posted.request?) ∧
    pending.Perm (p.endpoint.pending ++ p.posted.filterMap Posted.reply?) ∧
    e = { p.endpoint with
      registered := registered
      pending := pending }

/-- A step of the endpoint that stands for a step of the loop thread. -/
def Move (p : Peer M) (incoming : List RpcMetaMessage) : Endpoint.Event M → Prop
  | .receive message => (incoming.drop p.endpoint.received.length).head? = some message
  | .resume => True
  | .send _ => ∃ call rest, p.posted = .request call :: rest
  | .runDone _ _ => ∃ done response rest, p.posted = .reply done response :: rest
  | .begin _ | .register _ => False

/-- The bytes of the messages were added to the output, and nothing else happened. -/
structure Transmitted (codec : ProtobufCodecLite) (p : Peer M) (messages : List RpcMetaMessage)
    (q : Peer M) : Prop where
  eq : q = { p with conn := q.conn }
  stream : q.conn.stream = p.conn.stream ++ (messages.map codec.frame).flatten
  written : p.conn.written <+: q.conn.written
  tracks : p.conn.Tracks → q.conn.Tracks

/-- What one end has sent is what the other end has received, still has in its buffer, or will
find in the kernel or in the output buffer; outside `onMessage` the buffer holds no whole frame. -/
structure Pipe (codec : ProtobufCodecLite) (src dst : Peer M) : Prop where
  fits : ∀ m ∈ src.endpoint.sent, codec.Fits m
  stream : src.conn.stream = (src.endpoint.sent.map codec.frame).flatten
  tracks : src.conn.Tracks
  received : dst.endpoint.received <+: src.endpoint.sent
  taken : dst.taken ≤ src.conn.written.length
  arrived : src.conn.written.take dst.taken =
    (dst.endpoint.received.map codec.frame).flatten ++ dst.inBuf.readable
  waiting : dst.reading = false → codec.next dst.inBuf.readable = .more

section Transmit

variable {p q : Peer M} {message : RpcMetaMessage} {messages : List RpcMetaMessage} {ret : ℤ}

lemma written_kept (w : Bytes) : TcpConnection.Kept fun c => w <+: c.written where
  write := by
    intro c fd data ret h
    rw [TcpConnection.written_write]
    exact h.trans (List.prefix_append _ _)
  outBuf := fun _ _ h => h
  setWriting := fun _ h => h
  clearWriting := fun _ h => h
  queueInLoop := fun _ _ h => h

lemma afterSend_returned {r : TcpConnection × Outcome} (h : r.2 = .returned) :
    p.afterSend r = { p with conn := r.1 } := by
  have hrunning : (Outcome.returned == Outcome.outOfRange) = false := rfl
  rw [afterSend, h, hrunning, Bool.or_false]

lemma transmit_some (hfits : codec.Fits message) (h0 : 0 ≤ ret)
    (h : p.transmit (codec.send message) ret = some q) : Transmitted codec p [message] q := by
  have hlen := codec.frame_length message
  simp only [ProtobufCodecLite.Fits, ProtobufCodecLite.kChecksumLen,
    ProtobufCodecLite.kMaxMessageLen] at hfits
  have hsend := codec.send_eq_frame message (by simp only [ProtobufCodecLite.kChecksumLen]; omega)
  rw [hsend, transmit] at h
  obtain ⟨hret, h⟩ := Option.ite_none_right_eq_some.mp h
  have hsize : CInt.toInt32 (codec.frame message).length = (codec.frame message).length :=
    CInt.toInt32_of_fits (by omega) (by omega)
  have hok : OutgoingStream.SendOk p.conn (codec.frame message) ret := by
    unfold OutgoingStream.SendOk
    split_ifs with hempty
    · have hreturns := hret hempty
      unfold WriteReturns at hreturns
      omega
    · omega
  obtain ⟨hstream, hreturned⟩ :=
    (OutgoingStream.sendInLoop_intact_iff (by omega) hret).mpr hok
  rw [afterSend_returned hreturned] at h
  have hq := Option.some.inj h
  rw [← hq]
  refine ⟨rfl, ?_, ?_, ?_⟩
  · simpa using hstream
  · exact (written_kept p.conn.written).sendInLoop (List.prefix_refl _) _ _
  · intro htracks
    exact TcpConnection.tracks_sendInLoop htracks (by omega) ret

lemma Transmitted.refl (p : Peer M) : Transmitted codec p [] p :=
  ⟨rfl, by simp, List.prefix_refl _, id⟩

lemma Transmitted.trans {r : Peer M} {more : List RpcMetaMessage}
    (h : Transmitted codec p messages q) (h' : Transmitted codec q more r) :
    Transmitted codec p (messages ++ more) r where
  eq := by
    rw [h'.eq, h.eq]
  stream := by
    rw [h'.stream, h.stream, List.append_assoc, List.map_append, List.flatten_append]
  written := h.written.trans h'.written
  tracks := h'.tracks ∘ h.tracks

lemma transmit_all (hfits : ∀ m ∈ messages, codec.Fits m) (h0 : 0 ≤ ret)
    (h : messages.foldlM (fun p m => p.transmit (codec.send m) ret) p = some q) :
    Transmitted codec p messages q := by
  induction messages generalizing p with
  | nil =>
    simp only [List.foldlM_nil, Option.pure_def, Option.some.injEq] at h
    exact h ▸ Transmitted.refl p
  | cons m messages ih =>
    rw [List.foldlM_cons, Option.bind_eq_bind] at h
    obtain ⟨r, hr, hq⟩ := Option.bind_eq_some_iff.mp h
    have hhead := transmit_some (hfits m List.mem_cons_self) h0 hr
    exact hhead.trans (ih (fun m' hm' => hfits m' (List.mem_cons_of_mem m hm')) hq)

/-- Going on with an endpoint sends what that has sent more. -/
lemma advance_some {e : Endpoint M} (he : e.sent = p.endpoint.sent ++ messages)
    (hfits : ∀ m ∈ messages, codec.Fits m) (h0 : 0 ≤ ret)
    (h : p.advance codec e ret = some q) :
    Transmitted codec { p with endpoint := e } messages q := by
  rw [advance, he, List.drop_left] at h
  exact transmit_all hfits h0 h

end Transmit

section Matches

variable {p q : Peer M} {e : Endpoint M}

lemma matches_new (e : Endpoint M) (sockfd : ℤ) : (Peer.new e sockfd).Matches e :=
  ⟨e.registered, e.pending, by simp [Peer.new], by simp [Peer.new], rfl⟩

/-- The steps that leave alone what waits to be sent. -/
lemma Matches.congr (h : p.Matches e) (f : Endpoint M → Endpoint M) (hq : q.endpoint = f p.endpoint)
    (hposted : q.posted = p.posted)
    (hregistered : (f p.endpoint).registered = p.endpoint.registered)
    (hpending : (f p.endpoint).pending = p.endpoint.pending)
    (hf : ∀ registered pending, f { p.endpoint with
        registered := registered
        pending := pending } = { f p.endpoint with
        registered := registered
        pending := pending }) : q.Matches (f e) := by
  obtain ⟨registered, pending, hr, hp, rfl⟩ := h
  refine ⟨registered, pending, ?_, ?_, ?_⟩
  · rw [hq, hregistered, hposted]
    exact hr
  · rw [hq, hpending, hposted]
    exact hp
  · rw [hf, hq]

lemma perm_concat {α : Type*} {l l₁ l₂ : List α} (h : l.Perm (l₁ ++ l₂)) (a : α) :
    (l ++ [a]).Perm (l₁ ++ [a] ++ l₂) := by
  refine (h.append_right [a]).trans ?_
  rw [List.append_assoc, List.append_assoc]
  exact List.Perm.append_left l₁ List.perm_append_comm

/-- What leaves the second list at any place is somewhere in the first. -/
lemma perm_eraseIdx {α : Type*} {l m : List α} {a : α} (h : l.Perm (a :: m)) :
    ∃ k, l[k]? = some a ∧ (l.eraseIdx k).Perm m := by
  obtain ⟨k, hk, hget⟩ := List.getElem_of_mem (h.symm.subset List.mem_cons_self)
  refine ⟨k, by rw [List.getElem?_eq_getElem hk, hget], ?_⟩
  have hperm := (List.getElem_cons_eraseIdx_perm hk).trans h
  rw [hget] at hperm
  exact hperm.cons_inv

lemma perm_getElem? {α : Type*} {l : List α} {k : ℕ} {a : α} (h : l[k]? = some a) :
    l.Perm (a :: l.eraseIdx k) := by
  obtain ⟨hk, rfl⟩ := List.getElem?_eq_some_iff.mp h
  exact (List.getElem_cons_eraseIdx_perm hk).symm

lemma Matches.of_eq (h : p.Matches e) (hq : q.endpoint = p.endpoint)
    (hposted : q.posted = p.posted) : q.Matches e :=
  h.congr id hq hposted rfl rfl fun _ _ => rfl

lemma matches_beginCall (h : p.Matches e) (args : CallArgs M) :
    Matches { p with endpoint := p.endpoint.beginCall args } (e.beginCall args) :=
  h.congr (fun e => e.beginCall args) rfl rfl rfl rfl fun _ _ => rfl

lemma matches_resumeFrame (h : p.Matches e) (frame : Frame) :
    Matches { p with endpoint := p.endpoint.resumeFrame frame } (e.resumeFrame frame) := by
  cases frame <;> exact h.congr (fun e => e.resumeFrame _) rfl rfl rfl rfl fun _ _ => rfl

lemma matches_registerCall (h : p.Matches e) {k : ℕ} {call : Call M}
    (hk : p.endpoint.started[k]? = some call) : ∃ e', Endpoint.step e (.register k) = some e' ∧
      Matches { p with endpoint := p.endpoint.registerCall k call } e' := by
  obtain ⟨registered, pending, hr, hp, rfl⟩ := h
  exact ⟨_, Option.map_eq_some_iff.mpr ⟨call, hk, rfl⟩,
    registered ++ [call], pending, perm_concat hr call, hp, rfl⟩

/-- What one thread takes and the loop thread has not sent stays for the endpoint where it was. -/
lemma matches_post_request (h : p.Matches e) {k : ℕ} {call : Call M}
    (hk : p.endpoint.registered[k]? = some call)
    (frame : Except ProtobufCodecLite.EncodeError Bytes) :
    Matches (p.post { p.endpoint with registered := p.endpoint.registered.eraseIdx k }
      (.request call) frame) e := by
  obtain ⟨registered, pending, hr, hp, rfl⟩ := h
  refine ⟨registered, pending, ?_, ?_, rfl⟩
  · have hperm := hr.trans ((perm_getElem? hk).append_right _)
    simp only [post, List.filterMap_append, List.filterMap_cons, Posted.request?,
      List.filterMap_nil]
    refine hperm.trans ?_
    rw [List.cons_append, ← List.append_assoc]
    exact (List.perm_append_singleton call _).symm
  · simp only [post, List.filterMap_append, List.filterMap_cons, Posted.reply?,
      List.filterMap_nil, List.append_nil]
    exact hp

lemma matches_post_reply (h : p.Matches e) {k : ℕ} {done : PendingDone M}
    (hk : p.endpoint.pending[k]? = some done) (response : M)
    (frame : Except ProtobufCodecLite.EncodeError Bytes) :
    Matches (p.post { p.endpoint with pending := p.endpoint.pending.eraseIdx k }
      (.reply done response) frame) e := by
  obtain ⟨registered, pending, hr, hp, rfl⟩ := h
  refine ⟨registered, pending, ?_, ?_, rfl⟩
  · simp only [post, List.filterMap_append, List.filterMap_cons, Posted.request?,
      List.filterMap_nil, List.append_nil]
    exact hr
  · have hperm := hp.trans ((perm_getElem? hk).append_right _)
    simp only [post, List.filterMap_append, List.filterMap_cons, Posted.reply?,
      List.filterMap_nil]
    refine hperm.trans ?_
    rw [List.cons_append, ← List.append_assoc]
    exact (List.perm_append_singleton done _).symm

lemma matches_sendCall (h : p.Matches e) {k : ℕ} {call : Call M}
    (hk : p.endpoint.registered[k]? = some call) : ∃ k' e',
      Endpoint.step e (.send k') = some e' ∧
      Matches { p with endpoint := p.endpoint.sendCall k call } e' := by
  obtain ⟨registered, pending, hr, hp, rfl⟩ := h
  obtain ⟨k', hk', hrest⟩ := perm_eraseIdx (hr.trans ((perm_getElem? hk).append_right _))
  exact ⟨k', _, Option.map_eq_some_iff.mpr ⟨call, hk', rfl⟩,
    registered.eraseIdx k', pending, hrest, hp, rfl⟩

lemma matches_send_posted (h : p.Matches e) {call : Call M} {rest : List (Posted M)}
    (hposted : p.posted = .request call :: rest) : ∃ k' e',
      Endpoint.step e (.send k') = some e' ∧
      Matches { p with
        posted := rest
        endpoint := (Posted.request call).sendIn p.endpoint } e' := by
  obtain ⟨registered, pending, hr, hp, rfl⟩ := h
  rw [hposted] at hr hp
  simp only [List.filterMap_cons, Posted.request?, Posted.reply?] at hr hp
  obtain ⟨k', hk', hrest⟩ := perm_eraseIdx (hr.trans List.perm_middle)
  exact ⟨k', _, Option.map_eq_some_iff.mpr ⟨call, hk', rfl⟩,
    registered.eraseIdx k', pending, hrest, hp, rfl⟩

lemma matches_doneCallback (h : p.Matches e) {k : ℕ} {done : PendingDone M}
    (hk : p.endpoint.pending[k]? = some done) (response : M) : ∃ k' e',
      Endpoint.step e (.runDone k' response) = some e' ∧
      Matches { p with endpoint := p.endpoint.doneCallback k done response } e' := by
  obtain ⟨registered, pending, hr, hp, rfl⟩ := h
  obtain ⟨k', hk', hrest⟩ := perm_eraseIdx (hp.trans ((perm_getElem? hk).append_right _))
  exact ⟨k', _, Option.map_eq_some_iff.mpr ⟨done, hk', rfl⟩,
    registered, pending.eraseIdx k', hr, hrest, rfl⟩

lemma matches_done_posted (h : p.Matches e) {done : PendingDone M} {response : M}
    {rest : List (Posted M)} (hposted : p.posted = .reply done response :: rest) : ∃ k' e',
      Endpoint.step e (.runDone k' response) = some e' ∧
      Matches { p with
        posted := rest
        endpoint := (Posted.reply done response).sendIn p.endpoint } e' := by
  obtain ⟨registered, pending, hr, hp, rfl⟩ := h
  rw [hposted] at hr hp
  simp only [List.filterMap_cons, Posted.request?, Posted.reply?] at hr hp
  obtain ⟨k', hk', hrest⟩ := perm_eraseIdx (hp.trans List.perm_middle)
  exact ⟨k', _, Option.map_eq_some_iff.mpr ⟨done, hk', rfl⟩,
    registered, pending.eraseIdx k', hr, hrest, rfl⟩

lemma matches_onRpcMessage (h : p.Matches e) (m : RpcMetaMessage) :
    Matches { p with endpoint := p.endpoint.onRpcMessage m } (e.onRpcMessage m) := by
  obtain ⟨registered, pending, hr, hp, rfl⟩ := h
  cases htype : m.type with
  | REQUEST =>
    simp only [Endpoint.onRpcMessage, htype, Endpoint.onRequest]
    cases p.endpoint.channel.dispatch m with
    | ok target =>
      exact ⟨registered, pending ++ [⟨m.id, m, target⟩], hr, perm_concat hp _, rfl⟩
    | error error => exact ⟨registered, pending, hr, hp, rfl⟩
  | RESPONSE =>
    simp only [Endpoint.onRpcMessage, htype, Endpoint.onResponse]
    exact ⟨registered, pending, hr, hp, rfl⟩
  | ERROR =>
    simp only [Endpoint.onRpcMessage, htype]
    exact ⟨registered, pending, hr, hp, rfl⟩

end Matches

section Pipe

variable {src dst src' dst' : Peer M} {messages : List RpcMetaMessage} {m : RpcMetaMessage}

/-- One end sends more. -/
lemma Pipe.send (h : Pipe codec src dst)
    (hsent : src'.endpoint.sent = src.endpoint.sent ++ messages)
    (hfits : ∀ m ∈ messages, codec.Fits m)
    (hstream : src'.conn.stream = src.conn.stream ++ (messages.map codec.frame).flatten)
    (hwritten : src.conn.written <+: src'.conn.written)
    (htracks : src.conn.Tracks → src'.conn.Tracks) : Pipe codec src' dst where
  fits := by
    intro m hm
    rw [hsent] at hm
    exact (List.mem_append.mp hm).elim (h.fits m) (hfits m)
  stream := by rw [hstream, h.stream, hsent, List.map_append, List.flatten_append]
  tracks := htracks h.tracks
  received := hsent ▸ h.received.trans (List.prefix_append _ _)
  taken := h.taken.trans hwritten.length_le
  arrived := by
    obtain ⟨more, hmore⟩ := hwritten
    rw [← hmore, List.take_append_of_le_length h.taken, h.arrived]
  waiting := h.waiting

/-- The kernel takes more of what one end has sent. -/
lemma Pipe.drain (h : Pipe codec src dst) (hsent : src'.endpoint.sent = src.endpoint.sent)
    (hstream : src'.conn.stream = src.conn.stream)
    (hwritten : src.conn.written <+: src'.conn.written)
    (htracks : src.conn.Tracks → src'.conn.Tracks) : Pipe codec src' dst :=
  h.send (hsent.trans (List.append_nil _).symm) (fun _ hm => absurd hm List.not_mem_nil)
    (hstream.trans (List.append_nil _).symm) hwritten htracks

/-- What does not touch the output of one end. -/
lemma Pipe.of_eq_src (h : Pipe codec src dst) (hsent : src'.endpoint.sent = src.endpoint.sent)
    (hconn : src'.conn = src.conn) : Pipe codec src' dst :=
  h.drain hsent (hconn ▸ rfl) (hconn ▸ List.prefix_refl _) (hconn ▸ id)

lemma Pipe.of_eq (h : Pipe codec src dst)
    (hreceived : dst'.endpoint.received = dst.endpoint.received)
    (hbuf : dst'.inBuf = dst.inBuf) (htaken : dst'.taken = dst.taken)
    (hreading : dst'.reading = dst.reading) : Pipe codec src dst' where
  fits := h.fits
  stream := h.stream
  tracks := h.tracks
  received := hreceived ▸ h.received
  taken := htaken ▸ h.taken
  arrived := by rw [htaken, hreceived, hbuf, h.arrived]
  waiting := by
    rw [hreading, hbuf]
    exact h.waiting

lemma Pipe.read (h : Pipe codec src dst) {n : ℕ} (hn : dst.taken + n ≤ src.conn.written.length) :
    Pipe codec src { dst with
      inBuf := dst.inBuf.readFd ((src.conn.written.drop dst.taken).take n)
      taken := dst.taken + n
      reading := true } where
  fits := h.fits
  stream := h.stream
  tracks := h.tracks
  received := h.received
  taken := hn
  arrived := by rw [Buffer.readable_readFd, List.take_add, h.arrived, List.append_assoc]
  waiting := by simp

/-- The buffer holds the beginning of the frames that come next. -/
lemma Pipe.readable (h : Pipe codec src dst) : dst.inBuf.readable <+:
    ((src.endpoint.sent.drop dst.endpoint.received.length).map codec.frame).flatten := by
  obtain ⟨rest, hrest⟩ := h.received
  have hprefix : src.conn.written.take dst.taken <+: src.conn.stream :=
    (List.take_prefix _ _).trans (List.prefix_append _ _)
  rw [h.arrived, h.stream, ← hrest, List.map_append, List.flatten_append,
    List.prefix_append_right_inj] at hprefix
  rw [← hrest, List.drop_left]
  exact hprefix

/-- A turn of `onMessage` waits, or it finds the message that comes next. -/
lemma Pipe.next (hframes : codec.Frames) (h : Pipe codec src dst) :
    codec.next dst.inBuf.readable = .more ∨ ∃ m,
      (src.endpoint.sent.drop dst.endpoint.received.length).head? = some m ∧
      codec.next dst.inBuf.readable = .item (codec.frame m).length m ∧
      dst.inBuf.readable = codec.frame m ++ dst.inBuf.readable.drop (codec.frame m).length := by
  have hfits : ∀ m ∈ src.endpoint.sent.drop dst.endpoint.received.length, codec.Fits m :=
    fun m hm => h.fits m (List.mem_of_mem_drop hm)
  have hall := ProtobufCodecLite.forall₂_frames hframes hfits
  rcases next_frames codec.decoder hall h.readable with hmore | hitem
  · exact Or.inl hmore
  · obtain ⟨frame, frames, m, rest, heq, hrest, hnext, hsplit⟩ := hitem
    rw [hrest, List.map_cons] at heq
    obtain ⟨rfl, -⟩ := List.cons.inj heq
    exact Or.inr ⟨m, by rw [hrest]; rfl, hnext, hsplit⟩

/-- A message is taken off the buffer. -/
lemma Pipe.receive (h : Pipe codec src dst)
    (hm : (src.endpoint.sent.drop dst.endpoint.received.length).head? = some m)
    (hsplit : dst.inBuf.readable = codec.frame m ++ dst.inBuf.readable.drop (codec.frame m).length)
    (hreceived : dst'.endpoint.received = dst.endpoint.received ++ [m])
    (hbuf : dst'.inBuf.readable = dst.inBuf.readable.drop (codec.frame m).length)
    (htaken : dst'.taken = dst.taken) (hreading : dst'.reading = true) :
    Pipe codec src dst' where
  fits := h.fits
  stream := h.stream
  tracks := h.tracks
  received := hreceived ▸ RpcConnection.prefix_concat h.received hm
  taken := htaken ▸ h.taken
  arrived := by
    rw [htaken, h.arrived, hreceived, hbuf, List.map_append, List.flatten_append,
      List.append_assoc, List.map_singleton, List.flatten_singleton, ← hsplit]
  waiting := by simp [hreading]

end Pipe

section Loop

variable {p q o : Peer M} {e e' : Endpoint M} {messages : List RpcMetaMessage} {ret : ℤ}

lemma sent_onRpcMessage (e : Endpoint M) (m : RpcMetaMessage) :
    ∃ messages, (e.onRpcMessage m).sent = e.sent ++ messages := by
  cases htype : m.type with
  | REQUEST =>
    simp only [Endpoint.onRpcMessage, htype, Endpoint.onRequest]
    cases e.channel.dispatch m with
    | ok target => exact ⟨[], (List.append_nil _).symm⟩
    | error error => exact ⟨[_], rfl⟩
  | RESPONSE | ERROR =>
    simp only [Endpoint.onRpcMessage, htype]
    exact ⟨[], (List.append_nil _).symm⟩

lemma received_onRpcMessage (e : Endpoint M) (m : RpcMetaMessage) :
    (e.onRpcMessage m).received = e.received ++ [m] := by
  cases htype : m.type <;> simp only [Endpoint.onRpcMessage, htype]

lemma sent_sendIn (e : Endpoint M) (posted : Posted M) :
    (posted.sendIn e).sent = e.sent ++ [posted.message] := by
  cases posted <;> rfl

lemma received_sendIn (e : Endpoint M) (posted : Posted M) :
    (posted.sendIn e).received = e.received := by
  cases posted <;> rfl

lemma transmit_keeps {frame : Except ProtobufCodecLite.EncodeError Bytes}
    (h : p.transmit frame ret = some q) : q.endpoint = p.endpoint ∧ q.posted = p.posted := by
  unfold transmit at h
  cases frame with
  | error error =>
    have hq := Option.some.inj h
    rw [← hq]
    exact ⟨rfl, rfl⟩
  | ok frame =>
    obtain ⟨-, h⟩ := Option.ite_none_right_eq_some.mp h
    have hq := Option.some.inj h
    rw [← hq]
    exact ⟨rfl, rfl⟩

lemma advance_keeps (h : p.advance codec e ret = some q) :
    q.endpoint = e ∧ q.posted = p.posted := by
  have hall : ∀ (messages : List RpcMetaMessage) (r : Peer M),
      messages.foldlM (fun p m => p.transmit (codec.send m) ret) r = some q →
      q.endpoint = r.endpoint ∧ q.posted = r.posted := by
    intro messages
    induction messages with
    | nil =>
      intro r h
      simp only [List.foldlM_nil, Option.pure_def, Option.some.injEq] at h
      exact ⟨by rw [h], by rw [h]⟩
    | cons m messages ih =>
      intro r h
      rw [List.foldlM_cons, Option.bind_eq_bind] at h
      obtain ⟨r', hr', hq⟩ := Option.bind_eq_some_iff.mp h
      obtain ⟨hendpoint, hposted⟩ := transmit_keeps hr'
      obtain ⟨hendpoint', hposted'⟩ := ih r' hq
      exact ⟨hendpoint'.trans hendpoint, hposted'.trans hposted⟩
  exact hall _ _ h

/-- A send in the loop thread extends what goes out and leaves alone what comes in. -/
lemma advance_pipes (he : e.sent = p.endpoint.sent ++ messages) (h0 : 0 ≤ ret)
    (h : p.advance codec e ret = some q) (hfits : ∀ m ∈ q.endpoint.sent, codec.Fits m)
    (hout : Pipe codec p o) : Transmitted codec { p with endpoint := e } messages q ∧
      Pipe codec q o := by
  rw [(advance_keeps h).1, he] at hfits
  have hmessages : ∀ m ∈ messages, codec.Fits m := fun m hm => hfits m (List.mem_append_right _ hm)
  have hsent := advance_some he hmessages h0 h
  refine ⟨hsent, hout.send ?_ hmessages hsent.stream hsent.written hsent.tracks⟩
  rw [hsent.eq, he]

/-- The write results that do not make `sendInLoop` throw, and those that `int` can hold. -/
def LoopEvent.Harmless : LoopEvent → Prop
  | .decode ret | .runPosted ret => 0 ≤ ret
  | .write ret => ret < 2 ^ 31
  | .read _ | .resume => True

/-- A step of the loop thread is a step of the endpoint or none, and the pipes stay whole. -/
structure Moved (codec : ProtobufCodecLite) (p o q : Peer M) (e : Endpoint M) : Prop where
  matched : q.Matches e ∨ ∃ ev e', p.Move o.endpoint.sent ev ∧ Endpoint.step e ev = some e' ∧
    q.Matches e'
  out : Pipe codec q o
  into : Pipe codec o q
  running : q.exited = p.exited
  posted : ∃ n, q.posted = p.posted.drop n

lemma read_moved {n : ℕ} (hmatch : p.Matches e) (hout : Pipe codec p o) (hin : Pipe codec o p)
    (h : p.read o.conn.written n = some q) : Moved codec p o q e := by
  obtain ⟨⟨-, -, hn⟩, h⟩ := Option.ite_none_right_eq_some.mp h
  have hq := Option.some.inj h
  rw [← hq]
  exact ⟨Or.inl (hmatch.of_eq rfl rfl), hout.of_eq_src rfl rfl, hin.read hn, rfl,
    0, rfl⟩

lemma write_moved (hmatch : p.Matches e) (hout : Pipe codec p o) (hin : Pipe codec o p)
    (hret : p.conn.channel.isWriting = true → WriteReturns p.conn.outBuf.readableBytes ret)
    (hlt : ret < 2 ^ 31) : Moved codec p o { p with conn := p.conn.handleWrite ret } e := by
  have hstream := (OutgoingStream.handleWrite_intact_iff hret).mpr fun _ => hlt
  exact ⟨Or.inl (hmatch.of_eq rfl rfl), hout.drain rfl hstream
    ((written_kept p.conn.written).handleWrite (List.prefix_refl _) _)
    fun htracks => TcpConnection.tracks_handleWrite htracks ret,
    hin.of_eq rfl rfl rfl rfl, rfl, 0, rfl⟩

lemma resume_moved {frame : Frame} (hmatch : p.Matches e) (hout : Pipe codec p o)
    (hin : Pipe codec o p) (hframe : p.endpoint.frame = some frame) :
    Moved codec p o { p with endpoint := p.endpoint.resumeFrame frame } e := by
  have hsent : (p.endpoint.resumeFrame frame).sent = p.endpoint.sent := by cases frame <;> rfl
  have hreceived : (p.endpoint.resumeFrame frame).received = p.endpoint.received := by
    cases frame <;> rfl
  have hstep : Endpoint.step e .resume = some (e.resumeFrame frame) := by
    obtain ⟨registered, pending, -, -, rfl⟩ := hmatch
    exact Option.map_eq_some_iff.mpr ⟨frame, hframe, rfl⟩
  exact ⟨Or.inr ⟨.resume, _, trivial, hstep, matches_resumeFrame hmatch frame⟩,
    hout.of_eq_src hsent rfl, hin.of_eq hreceived rfl rfl rfl, rfl, 0, rfl⟩

lemma runPosted_moved {posted : Posted M} {rest : List (Posted M)} (hmatch : p.Matches e)
    (hout : Pipe codec p o) (hin : Pipe codec o p) (hposted : p.posted = posted :: rest)
    (h0 : 0 ≤ ret)
    (h : advance codec { p with posted := rest } (posted.sendIn p.endpoint) ret = some q)
    (hfits : ∀ m ∈ q.endpoint.sent, codec.Fits m) : Moved codec p o q e := by
  have hout' : Pipe codec { p with posted := rest } o := hout.of_eq_src rfl rfl
  obtain ⟨hsent, hpipe⟩ := advance_pipes (p := { p with posted := rest })
    (sent_sendIn p.endpoint posted) h0 h hfits hout'
  have hreceived := received_sendIn p.endpoint posted
  have heq := hsent.eq
  refine ⟨Or.inr ?_, hpipe, ?_, by rw [heq], 1, by rw [heq, hposted]; rfl⟩
  · cases posted with
    | request call =>
      obtain ⟨k, e', hstep, hmatch'⟩ := matches_send_posted hmatch hposted
      exact ⟨.send k, e', ⟨call, rest, hposted⟩, hstep,
        hmatch'.of_eq (by rw [heq]) (by rw [heq])⟩
    | reply done response =>
      obtain ⟨k, e', hstep, hmatch'⟩ := matches_done_posted hmatch hposted
      exact ⟨.runDone k response, e', ⟨done, response, rest, hposted⟩, hstep,
        hmatch'.of_eq (by rw [heq]) (by rw [heq])⟩
  · exact hin.of_eq (by rw [heq, hreceived]) (by rw [heq]) (by rw [heq]) (by rw [heq])

lemma decode_moved (hframes : codec.Frames) (htag : codec.TagInt) (hmatch : p.Matches e)
    (hout : Pipe codec p o) (hin : Pipe codec o p) (hreading : p.reading = true)
    (hframe : p.endpoint.frame = none) (h0 : 0 ≤ ret)
    (h : p.decode codec (codec.onMessageTurn p.inBuf) ret = some q)
    (hfits : ∀ m ∈ q.endpoint.sent, codec.Fits m) : Moved codec p o q e := by
  rw [ProtobufCodecLite.onMessageTurn_eq htag] at h
  rcases hin.next hframes with hmore | ⟨m, hm, hitem, hsplit⟩
  · rw [hmore, decode] at h
    have hq := Option.some.inj h
    rw [← hq]
    exact ⟨Or.inl (hmatch.of_eq rfl rfl), hout.of_eq_src rfl rfl,
      ⟨hin.fits, hin.stream, hin.tracks, hin.received, hin.taken, hin.arrived, fun _ => hmore⟩,
      rfl, 0, rfl⟩
  · rw [hitem, decode] at h
    obtain ⟨messages, hmessages⟩ := sent_onRpcMessage p.endpoint m
    have hreceived := received_onRpcMessage p.endpoint m
    have hout' : Pipe codec { p with inBuf := p.inBuf.retrieve (codec.frame m).length } o :=
      hout.of_eq_src rfl rfl
    obtain ⟨hsent, hpipe⟩ := advance_pipes
      (p := { p with inBuf := p.inBuf.retrieve (codec.frame m).length })
      hmessages h0 h hfits hout'
    have heq := hsent.eq
    have hstep : Endpoint.step e (.receive m) = some (e.onRpcMessage m) := by
      obtain ⟨registered, pending, -, -, rfl⟩ := hmatch
      exact if_pos hframe
    refine ⟨Or.inr ⟨.receive m, _, hm, hstep, ?_⟩, hpipe, ?_, by rw [heq], 0, by rw [heq]; rfl⟩
    · exact (matches_onRpcMessage hmatch m).of_eq (by rw [heq]) (by rw [heq])
    · exact hin.receive hm hsplit (by rw [heq, hreceived])
        (by rw [heq]; exact Buffer.readable_retrieve _ _) (by rw [heq])
        (by rw [heq]; exact hreading)

/-- Whatever the loop thread does. -/
lemma loopStep_moved (hframes : codec.Frames) (htag : codec.TagInt) {ev : LoopEvent}
    (hmatch : p.Matches e) (hout : Pipe codec p o) (hin : Pipe codec o p) (hharmless : ev.Harmless)
    (h : p.loopStep codec o.conn.written ev = some q)
    (hfits : ∀ m ∈ q.endpoint.sent, codec.Fits m) : Moved codec p o q e := by
  cases ev with
  | read n => exact read_moved hmatch hout hin (Option.ite_none_left_eq_some.mp h).2
  | decode ret =>
    obtain ⟨⟨hreading, hframe⟩, h⟩ := Option.ite_none_right_eq_some.mp h
    exact decode_moved hframes htag hmatch hout hin hreading hframe hharmless h hfits
  | resume =>
    obtain ⟨frame, hframe, rfl⟩ := Option.map_eq_some_iff.mp h
    exact resume_moved hmatch hout hin hframe
  | runPosted ret =>
    unfold loopStep at h
    cases hposted : p.posted with
    | nil => simp [hposted] at h
    | cons posted rest =>
      simp only [hposted] at h
      exact runPosted_moved hmatch hout hin hposted hharmless
        (Option.ite_none_left_eq_some.mp h).2 hfits
  | write ret =>
    obtain ⟨hguard, h⟩ := Option.ite_none_left_eq_some.mp h
    have hq := Option.some.inj h
    rw [← hq]
    exact write_moved hmatch hout hin
      (fun hwriting => by_contra fun hret => hguard (Or.inr ⟨hwriting, hret⟩)) hharmless

end Loop

end Peer

end RpcMuduo
