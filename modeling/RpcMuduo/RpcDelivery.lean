import RpcMuduo.RpcRefinement

/-!
# Delivery over TCP

The loop threads of the two ends cannot go on for ever, and where neither can go on everything
that was sent has been received.
-/
namespace RpcMuduo
open OutgoingStream (WriteReturns)
open RpcMeta Run

variable {M : Type*} {codec : ProtobufCodecLite}

namespace Peer

/-- What is left to do inside `onRpcMessage`. -/
def frameWeight : Option Frame → ℕ
  | none => 0
  | some (.taken _ _) => 2
  | some .serving | some (.finishing _ _) => 1

/-- What is left for the loop thread of `p` before it takes the next message: a byte that goes from
the output buffer into the kernel is still to be read. -/
def work (p o : Peer M) : ℕ :=
  frameWeight p.endpoint.frame + 3 * p.conn.outBuf.readableBytes +
    2 * (o.conn.written.length - p.taken) + p.reading.toNat

/-- `EPOLLOUT` is reported where output waits, and the kernel then takes some of it. -/
def Productive (p : Peer M) : LoopEvent → Prop
  | .write ret => p.conn.outBuf.readableBytes ≠ 0 ∧ 0 < ret
  | .read _ | .decode _ | .resume | .runPosted _ => True

/-- Neither is there anything to do for the loop thread of `p` nor any byte to read. -/
structure Idle (p o : Peer M) : Prop where
  posted : p.posted = []
  reading : p.reading = false
  frame : p.endpoint.frame = none
  outBuf : p.conn.outBuf.readableBytes = 0
  taken : p.taken = o.conn.written.length

/-- What a step of the loop thread is worth. -/
inductive Effect (p o q : Peer M) : Prop
  | turn (sent : q.endpoint.sent = p.endpoint.sent)
      (received : q.endpoint.received = p.endpoint.received) (posted : q.posted = p.posted)
      (work : q.work o + o.work q < p.work o + o.work p)
  | sent (posted : Posted M) (head : p.posted = posted :: q.posted)
      (sent : q.endpoint.sent = p.endpoint.sent ++ [posted.message])
      (received : q.endpoint.received = p.endpoint.received)
  | received (m : RpcMetaMessage)
      (head : (o.endpoint.sent.drop p.endpoint.received.length).head? = some m)
      (endpoint : q.endpoint = p.endpoint.onRpcMessage m) (posted : q.posted = p.posted)

section Effect

variable {p q o : Peer M} {ret : ℤ}

lemma written_handleWrite {c : TcpConnection} (h : c.channel.isWriting = true) (ret : ℤ) :
    (c.handleWrite ret).written = c.written ++ c.outBuf.readable.take ret.toNat := by
  rw [← TcpConnection.written_write c c.channel.sockfd, TcpConnection.handleWrite, if_pos h]
  simp only
  split
  · split <;> rfl
  · rfl

lemma isWriting_of_output (h : Pipe codec p o) (hout : p.conn.outBuf.readableBytes ≠ 0) :
    p.conn.channel.isWriting = true := by
  rw [TcpConnection.isWriting_of_tracks h.tracks]
  exact decide_eq_true hout

/-- What the kernel takes leaves the buffer. -/
lemma write_work (hpipe : Pipe codec p o) (hout : p.conn.outBuf.readableBytes ≠ 0)
    (h0 : 0 < ret) (hlt : ret < 2 ^ 31)
    (hret : WriteReturns p.conn.outBuf.readableBytes ret) :
    work { p with conn := p.conn.handleWrite ret } o +
      o.work { p with conn := p.conn.handleWrite ret } < p.work o + o.work p := by
  have hwriting := isWriting_of_output hpipe hout
  have hstream := (OutgoingStream.handleWrite_intact_iff fun _ => hret).mpr fun _ => hlt
  have hlen := congrArg List.length hstream
  have hwritten := congrArg List.length (written_handleWrite hwriting ret)
  have htaken := hpipe.taken
  unfold WriteReturns at hret
  simp only [TcpConnection.stream, List.length_append, List.length_take,
    Buffer.readable_length] at hlen hwritten
  simp only [work]
  omega

lemma read_work {n : ℕ} (h : p.read o.conn.written n = some q) (hreading : p.reading = false) :
    q.work o + o.work q < p.work o + o.work p := by
  obtain ⟨⟨h0, -, hn⟩, h⟩ := Option.ite_none_right_eq_some.mp h
  have hq := Option.some.inj h
  rw [← hq]
  simp only [work, hreading, Bool.toNat_false, Bool.toNat_true]
  omega

lemma resume_work {frame : Frame} (hframe : p.endpoint.frame = some frame) :
    work { p with endpoint := p.endpoint.resumeFrame frame } o +
      o.work { p with endpoint := p.endpoint.resumeFrame frame } < p.work o + o.work p := by
  have hweight : frameWeight (p.endpoint.resumeFrame frame).frame <
      frameWeight p.endpoint.frame := by
    rw [hframe]
    cases frame <;> simp [Endpoint.resumeFrame, frameWeight]
  simp only [work]
  omega

/-- Every step of a loop thread that the system calls do not make empty. -/
lemma loopStep_effect (hframes : codec.Frames) (htag : codec.TagInt) {ev : LoopEvent}
    (hpipe : Pipe codec p o) (hin : Pipe codec o p) (hharmless : ev.Harmless)
    (hproductive : p.Productive ev) (h : p.loopStep codec o.conn.written ev = some q)
    (hfits : ∀ m ∈ q.endpoint.sent, codec.Fits m) : Effect p o q := by
  cases ev with
  | read n =>
    obtain ⟨hreading, h⟩ := Option.ite_none_left_eq_some.mp h
    have hwork := read_work h (by simpa using hreading)
    obtain ⟨-, h⟩ := Option.ite_none_right_eq_some.mp h
    have hq := Option.some.inj h
    exact .turn (by rw [← hq]) (by rw [← hq]) (by rw [← hq]) hwork
  | decode ret =>
    obtain ⟨⟨hreading, -⟩, h⟩ := Option.ite_none_right_eq_some.mp h
    rw [ProtobufCodecLite.onMessageTurn_eq htag] at h
    rcases hin.next hframes with hmore | ⟨m, hm, hitem, -⟩
    · rw [hmore, decode] at h
      have hq := Option.some.inj h
      refine .turn (by rw [← hq]) (by rw [← hq]) (by rw [← hq]) ?_
      rw [← hq]
      simp only [work, hreading, Bool.toNat_false, Bool.toNat_true]
      omega
    · rw [hitem, decode] at h
      obtain ⟨messages, hmessages⟩ := sent_onRpcMessage p.endpoint m
      have hpipe' : Pipe codec { p with inBuf := p.inBuf.retrieve (codec.frame m).length } o :=
        hpipe.of_eq_src rfl rfl
      obtain ⟨hsent, -⟩ := advance_pipes
        (p := { p with inBuf := p.inBuf.retrieve (codec.frame m).length })
        hmessages hharmless h hfits hpipe'
      have heq := hsent.eq
      exact .received m hm (by rw [heq]) (by rw [heq])
  | resume =>
    obtain ⟨frame, hframe, rfl⟩ := Option.map_eq_some_iff.mp h
    have hwork := resume_work (o := o) hframe
    exact .turn (by cases frame <;> rfl) (by cases frame <;> rfl) rfl hwork
  | runPosted ret =>
    unfold loopStep at h
    cases hposted : p.posted with
    | nil => simp [hposted] at h
    | cons posted rest =>
      simp only [hposted] at h
      have hpipe' : Pipe codec { p with posted := rest } o := hpipe.of_eq_src rfl rfl
      obtain ⟨hsent, -⟩ := advance_pipes (p := { p with posted := rest })
        (sent_sendIn p.endpoint posted) hharmless (Option.ite_none_left_eq_some.mp h).2 hfits hpipe'
      have heq := hsent.eq
      refine .sent posted (by rw [hposted, heq]) ?_ ?_
      · rw [heq]
        exact sent_sendIn p.endpoint posted
      · rw [heq]
        exact received_sendIn p.endpoint posted
  | write ret =>
    obtain ⟨hguard, h⟩ := Option.ite_none_left_eq_some.mp h
    have hq := Option.some.inj h
    have hwriting := isWriting_of_output hpipe hproductive.1
    have hret := by_contra fun hret => hguard (Or.inr ⟨hwriting, hret⟩)
    have hwork := write_work hpipe hproductive.1 hproductive.2 hharmless hret
    rw [← hq]
    exact .turn rfl rfl rfl hwork

end Effect

section Enabled

variable {p o : Peer M} {e : Endpoint M} {message : RpcMetaMessage}

lemma transmit_enabled (hfits : codec.Fits message) :
    ∃ ret q, 0 ≤ ret ∧ p.transmit (codec.send message) ret = some q := by
  simp only [ProtobufCodecLite.Fits, ProtobufCodecLite.kChecksumLen,
    ProtobufCodecLite.kMaxMessageLen] at hfits
  have hsend := codec.send_eq_frame message (by simp only [ProtobufCodecLite.kChecksumLen]; omega)
  rw [hsend]
  refine ⟨(codec.frame message).length, _, Int.natCast_nonneg _, if_pos fun _ => ?_⟩
  exact Or.inr ⟨Int.natCast_nonneg _, le_rfl⟩

lemma advance_enabled_nil (he : e.sent = p.endpoint.sent) :
    p.advance codec e 0 = some { p with endpoint := e } := by
  rw [advance, he, List.drop_length]
  rfl

lemma advance_enabled_one (he : e.sent = p.endpoint.sent ++ [message])
    (hfits : codec.Fits message) : ∃ ret q, 0 ≤ ret ∧ p.advance codec e ret = some q := by
  obtain ⟨ret, q, h0, hq⟩ := transmit_enabled (p := { p with endpoint := e }) hfits
  refine ⟨ret, q, h0, ?_⟩
  rw [advance, he, List.drop_left, List.foldlM_cons, hq]
  rfl

/-- Messages that fit are followed by messages that fit. -/
structure Fitting (codec : ProtobufCodecLite) (p q : Peer M) : Prop where
  sent : ∀ m ∈ q.endpoint.sent, codec.Fits m
  posted : ∀ posted ∈ q.posted, posted ∈ p.posted

lemma advance_fitting {q : Peer M} {ret : ℤ} (hsent : ∀ m ∈ p.endpoint.sent, codec.Fits m)
    (he : e.sent = p.endpoint.sent ++ [message]) (hfits : codec.Fits message)
    (h : p.advance codec e ret = some q) : Fitting codec p q where
  sent := by
    rw [(advance_keeps h).1, he]
    intro m hm
    rcases List.mem_append.mp hm with hm | hm
    · exact hsent m hm
    · rw [List.mem_singleton.mp hm]
      exact hfits
  posted := by
    rw [(advance_keeps h).2]
    exact fun _ hin => hin

/-- Where a loop thread is not idle it can go on, provided that it can answer what comes next. -/
lemma exists_loopStep (hframes : codec.Frames) (htag : codec.TagInt)
    (hsent : ∀ m ∈ p.endpoint.sent, codec.Fits m) (hin : Pipe codec o p)
    (hposted : ∀ posted ∈ p.posted, codec.Fits posted.message)
    (hanswer : ∀ m, (o.endpoint.sent.drop p.endpoint.received.length).head? = some m →
      (p.endpoint.onRpcMessage m).sent = p.endpoint.sent ∨ ∃ reply, codec.Fits reply ∧
        (p.endpoint.onRpcMessage m).sent = p.endpoint.sent ++ [reply])
    (hbusy : ¬ p.Idle o) : ∃ ev q, ev.Harmless ∧ p.Productive ev ∧
      p.loopStep codec o.conn.written ev = some q ∧ Fitting codec p q := by
  cases hframe : p.endpoint.frame with
  | some frame =>
    refine ⟨.resume, _, trivial, trivial, Option.map_eq_some_iff.mpr ⟨_, hframe, rfl⟩, ?_, ?_⟩
    · cases frame <;> exact hsent
    · exact fun _ hin => hin
  | none =>
    by_cases hreading : p.reading = true
    · have hgo : ∀ ret q, 0 ≤ ret → p.decode codec (codec.onMessageTurn p.inBuf) ret = some q →
          Fitting codec p q → ∃ ev q, LoopEvent.Harmless ev ∧ p.Productive ev ∧
            p.loopStep codec o.conn.written ev = some q ∧ Fitting codec p q :=
        fun ret q h0 hq hfitting =>
          ⟨.decode ret, q, h0, trivial, (if_pos ⟨hreading, hframe⟩).trans hq, hfitting⟩
      rw [ProtobufCodecLite.onMessageTurn_eq htag] at hgo
      rcases hin.next hframes with hmore | ⟨m, hm, hitem, -⟩
      · exact hgo 0 { p with reading := false } le_rfl (by rw [hmore, decode])
          ⟨hsent, fun _ hin => hin⟩
      · rcases hanswer m hm with hnone | ⟨reply, hfits, hone⟩
        · refine hgo 0 { p with
              inBuf := p.inBuf.retrieve (codec.frame m).length
              endpoint := p.endpoint.onRpcMessage m } le_rfl ?_ ⟨?_, fun _ hin => hin⟩
          · rw [hitem, decode]
            exact advance_enabled_nil hnone
          · simp only [hnone]
            exact hsent
        · obtain ⟨ret, q, h0, hq⟩ := advance_enabled_one
            (p := { p with inBuf := p.inBuf.retrieve (codec.frame m).length }) hone hfits
          have hfitting := advance_fitting
            (p := { p with inBuf := p.inBuf.retrieve (codec.frame m).length }) hsent hone hfits hq
          exact hgo ret q h0 (by rw [hitem, decode, hq]) ⟨hfitting.sent, hfitting.posted⟩
    · cases hhead : p.posted with
      | cons posted rest =>
        have hfits := hposted posted (hhead ▸ List.mem_cons_self)
        obtain ⟨ret, q, h0, hq⟩ := advance_enabled_one (p := { p with posted := rest })
          (sent_sendIn p.endpoint posted) hfits
        have hfitting := advance_fitting (p := { p with posted := rest }) hsent
          (sent_sendIn p.endpoint posted) hfits hq
        refine ⟨.runPosted ret, q, h0, trivial, ?_, hfitting.sent, ?_⟩
        · simp only [loopStep, hhead]
          exact (if_neg hreading).trans hq
        · intro posted' hin'
          rw [hhead]
          exact List.mem_cons_of_mem posted (hfitting.posted posted' hin')
      | nil =>
        by_cases hout : p.conn.outBuf.readableBytes = 0
        · have htaken : p.taken ≠ o.conn.written.length :=
            fun htaken => hbusy ⟨hhead, by simpa using hreading, hframe, hout, htaken⟩
          have hle := hin.taken
          exact ⟨.read 1, _, trivial, trivial, (if_neg hreading).trans
            (if_pos ⟨Nat.one_pos, by omega, by omega⟩), hsent, fun _ hin => hin⟩
        · refine ⟨.write 1, _, by simp [LoopEvent.Harmless], ⟨hout, Int.one_pos⟩, if_neg ?_,
            hsent, fun _ hin => hin⟩
          rintro (h | ⟨-, h⟩)
          · exact hreading h
          · exact h (Or.inr ⟨Int.one_nonneg, by omega⟩)

end Enabled

section Answers

variable {e : Endpoint M} {m : RpcMetaMessage}

lemma sent_response (h : m.type = .RESPONSE) : (e.onRpcMessage m).sent = e.sent := by
  simp only [Endpoint.onRpcMessage, h, Endpoint.onResponse]

/-- `onRpcMessage` itself sends nothing but the reply to a request that no service gets. -/
lemma sent_or_errorReply (e : Endpoint M) (m : RpcMetaMessage) :
    (e.onRpcMessage m).sent = e.sent ∨
      ∃ error, (e.onRpcMessage m).sent = e.sent ++ [RpcChannel.errorReply m error] := by
  cases htype : m.type with
  | REQUEST =>
    simp only [Endpoint.onRpcMessage, htype, Endpoint.onRequest]
    cases e.channel.dispatch m with
    | ok target => exact Or.inl rfl
    | error error => exact Or.inr ⟨error, rfl⟩
  | RESPONSE => exact Or.inl (sent_response htype)
  | ERROR => exact Or.inl (by simp only [Endpoint.onRpcMessage, htype])

end Answers

section Idle

variable {p o : Peer M}

/-- At an idle end everything that the other end has given to its kernel has been received. -/
lemma Idle.received (hframes : codec.Frames) (h : p.Idle o) (hin : Pipe codec o p)
    (hout : o.conn.outBuf.readableBytes = 0) : p.endpoint.received = o.endpoint.sent := by
  obtain ⟨rest, hrest⟩ := hin.received
  have hempty : o.conn.outBuf.readable = [] := (o.conn.outBuf.readable_eq_nil_iff).mpr hout
  have hall := hin.arrived
  rw [h.taken, List.take_length] at hall
  have hbytes : (o.endpoint.sent.map codec.frame).flatten =
      (p.endpoint.received.map codec.frame).flatten ++ p.inBuf.readable := by
    rw [← hin.stream, TcpConnection.stream, hempty, List.append_nil, hall]
  rw [← hrest, List.map_append, List.flatten_append, List.append_cancel_left_eq] at hbytes
  cases rest with
  | nil => rw [← hrest, List.append_nil]
  | cons m rest =>
    have hfits : codec.Fits m := hin.fits m (hrest ▸ by simp)
    have hitem := (hframes m hfits).whole (rest.map codec.frame).flatten
    have hmore := hin.waiting h.reading
    rw [← hbytes, List.map_cons, List.flatten_cons] at hmore
    have hcontra := hitem.symm.trans hmore
    cases hcontra

end Idle

end Peer

namespace RpcOverTcp

/-- A step of one of the loop threads that the system calls do not make empty. -/
inductive LoopStep (codec : ProtobufCodecLite) (s t : RpcOverTcp M) : Prop
  | client (ev : Peer.LoopEvent) (productive : s.client.Productive ev)
      (fits : StepFits codec s (.client ev)) (step : step codec s (.client ev) = some t)
  | server (ev : Peer.LoopEvent) (productive : s.server.Productive ev)
      (fits : StepFits codec s (.server ev)) (step : step codec s (.server ev) = some t)

/-- Messages on their way, those in front of a service or of a loop counted more than once, as
they come back as others. -/
def remaining (s : RpcOverTcp M) : ℕ :=
  3 * s.client.posted.length +
    2 * (s.client.endpoint.sent.length - s.server.endpoint.received.length) +
    2 * s.server.posted.length +
    (s.server.endpoint.sent.length - s.client.endpoint.received.length)

def rank (s : RpcOverTcp M) : ℕ ×ₗ ℕ :=
  toLex (s.remaining, s.client.work s.server + s.server.work s.client)

section Rank

variable {s t : RpcOverTcp M} {a : RpcConnection M}

lemma length_of_head {α : Type*} {l : List α} {n : ℕ} {m : α} (h : (l.drop n).head? = some m) :
    n < l.length :=
  (RpcConnection.drop_head h).2

lemma rank_client {q : Peer M} (h : Related codec s a) (hwire : RpcConnection.Wire a)
    (heffect : s.client.Effect s.server q) : rank { s with client := q } < rank s := by
  have hup := h.up.received.length_le
  rw [rank, rank, Prod.Lex.toLex_lt_toLex]
  cases heffect with
  | turn hsent hreceived hposted hwork =>
    right
    exact ⟨by simp only [remaining, hsent, hreceived, hposted], by omega⟩
  | sent posted hhead hsent hreceived =>
    left
    have hlen := congrArg List.length hhead
    simp only [List.length_cons] at hlen
    simp only [remaining, hsent, hreceived, List.length_append, List.length_singleton]
    omega
  | received m hhead hendpoint hposted =>
    left
    have hlt := length_of_head hhead
    have hmem : m ∈ a.server.sent := by
      rw [sent_of_matches h.server]
      exact List.mem_of_mem_drop (List.mem_of_mem_head? hhead)
    have hsent := Peer.sent_response (e := s.client.endpoint) (hwire.replies m hmem)
    have hreceived := Peer.received_onRpcMessage s.client.endpoint m
    simp only [remaining, hendpoint, hposted, hsent, hreceived, List.length_append,
      List.length_singleton]
    omega

lemma rank_server {q : Peer M} (h : Related codec s a) (heffect : s.server.Effect s.client q) :
    rank { s with server := q } < rank s := by
  have hdown := h.down.received.length_le
  rw [rank, rank, Prod.Lex.toLex_lt_toLex]
  cases heffect with
  | turn hsent hreceived hposted hwork =>
    right
    exact ⟨by simp only [remaining, hsent, hreceived, hposted], by simp only; omega⟩
  | sent posted hhead hsent hreceived =>
    left
    have hlen := congrArg List.length hhead
    simp only [List.length_cons] at hlen
    simp only [remaining, hsent, hreceived, List.length_append, List.length_singleton]
    omega
  | received m hhead hendpoint hposted =>
    left
    have hlt := length_of_head hhead
    have hreceived := Peer.received_onRpcMessage s.server.endpoint m
    have hlen : (s.server.endpoint.onRpcMessage m).sent.length ≤
        s.server.endpoint.sent.length + 1 := by
      rcases Peer.sent_or_errorReply s.server.endpoint m with hsent | ⟨error, hsent⟩ <;>
        simp [hsent]
    simp only [remaining, hendpoint, hposted, hreceived, List.length_append,
      List.length_singleton]
    omega

/-- Every step of a loop thread is one towards the end. -/
lemma rank_lt (hframes : codec.Frames) (htag : codec.TagInt) (h : Related codec s a)
    (hwire : RpcConnection.Wire a) (hstep : LoopStep codec s t) : rank t < rank s := by
  cases hstep with
  | client ev hproductive hfits hstep =>
    obtain ⟨hharmless, hall⟩ := hfits
    have hsent := hall t hstep
    rw [step] at hstep
    obtain ⟨-, q, hq, rfl⟩ := clientStep_eq_some.mp hstep
    exact rank_client h hwire (Peer.loopStep_effect hframes htag h.up h.down hharmless
      hproductive hq fun m hm => hsent m (by simp [messages, hm]))
  | server ev hproductive hfits hstep =>
    obtain ⟨hharmless, hall⟩ := hfits
    have hsent := hall t hstep
    rw [step] at hstep
    obtain ⟨-, q, hq, rfl⟩ := serverStep_eq_some.mp hstep
    exact rank_server h (Peer.loopStep_effect hframes htag h.down h.up hharmless hproductive hq
      fun m hm => hsent m (by simp [messages, hm]))

end Rank

section Progress

variable {s : RpcOverTcp M} {a : RpcConnection M}

/-- While an end is not idle, a loop thread has a step to take. -/
lemma exists_step (hframes : codec.Frames) (htag : codec.TagInt)
    (hreplies : ∀ m error, codec.Fits (RpcChannel.errorReply m error)) (h : Related codec s a)
    (hwire : RpcConnection.Wire a)
    (hbusy : ¬ (s.client.Idle s.server ∧ s.server.Idle s.client)) : ∃ t, LoopStep codec s t := by
  rcases not_and_or.mp hbusy with hbusy | hbusy
  · have hanswer : ∀ m, (s.server.endpoint.sent.drop
        s.client.endpoint.received.length).head? = some m →
        (s.client.endpoint.onRpcMessage m).sent = s.client.endpoint.sent := by
      intro m hm
      have hmem : m ∈ a.server.sent := by
        rw [sent_of_matches h.server]
        exact List.mem_of_mem_drop (List.mem_of_mem_head? hm)
      exact Peer.sent_response (hwire.replies m hmem)
    obtain ⟨ev, q, hharmless, hproductive, hq, hfitting⟩ := Peer.exists_loopStep hframes htag
      h.up.fits h.down (fun posted hin => (h.requests posted hin).2)
      (fun m hm => Or.inl (hanswer m hm)) hbusy
    have hstep : step codec s (.client ev) = some { s with client := q } := by
      rw [step]
      exact clientStep_eq_some.mpr ⟨h.clientRuns, q, hq, rfl⟩
    refine ⟨_, .client ev hproductive ⟨hharmless, ?_⟩ hstep⟩
    intro t ht m hm
    rw [hstep, Option.some.injEq] at ht
    subst ht
    simp only [messages, List.mem_append, List.mem_map] at hm
    rcases hm with (hm | ⟨posted, hin, rfl⟩) | hm | ⟨posted, hin, rfl⟩
    · exact hfitting.sent m hm
    · exact (h.requests posted (hfitting.posted posted hin)).2
    · exact h.down.fits m hm
    · exact (h.replies posted hin).2
  · have hanswer : ∀ m, (s.server.endpoint.onRpcMessage m).sent = s.server.endpoint.sent ∨
        ∃ reply, codec.Fits reply ∧
          (s.server.endpoint.onRpcMessage m).sent = s.server.endpoint.sent ++ [reply] := by
      intro m
      rcases Peer.sent_or_errorReply s.server.endpoint m with hsent | ⟨error, hsent⟩
      · exact Or.inl hsent
      · exact Or.inr ⟨_, hreplies m error, hsent⟩
    obtain ⟨ev, q, hharmless, hproductive, hq, hfitting⟩ := Peer.exists_loopStep hframes htag
      h.down.fits h.up (fun posted hin => (h.replies posted hin).2) (fun m _ => hanswer m) hbusy
    have hstep : step codec s (.server ev) = some { s with server := q } := by
      rw [step]
      exact serverStep_eq_some.mpr ⟨h.serverRuns, q, hq, rfl⟩
    refine ⟨_, .server ev hproductive ⟨hharmless, ?_⟩ hstep⟩
    intro t ht m hm
    rw [hstep, Option.some.injEq] at ht
    subst ht
    simp only [messages, List.mem_append, List.mem_map] at hm
    rcases hm with (hm | ⟨posted, hin, rfl⟩) | hm | ⟨posted, hin, rfl⟩
    · exact h.up.fits m hm
    · exact (h.requests posted hin).2
    · exact hfitting.sent m hm
    · exact (h.replies posted (hfitting.posted posted hin)).2

end Progress

section Drain

variable {s t start : RpcOverTcp M}

lemma calls_onRpcMessage (e : Endpoint M) (m : RpcMetaMessage) :
    (e.onRpcMessage m).calls = e.calls := by
  cases htype : m.type with
  | REQUEST =>
    simp only [Endpoint.onRpcMessage, htype, Endpoint.onRequest]
    cases e.channel.dispatch m <;> rfl
  | RESPONSE | ERROR => simp only [Endpoint.onRpcMessage, htype, Endpoint.onResponse]

lemma calls_loopStep {p q : Peer M} {incoming : Bytes} {ev : Peer.LoopEvent}
    (h : p.loopStep codec incoming ev = some q) : q.endpoint.calls = p.endpoint.calls := by
  cases ev with
  | read n =>
    obtain ⟨-, h⟩ := Option.ite_none_left_eq_some.mp h
    obtain ⟨-, h⟩ := Option.ite_none_right_eq_some.mp h
    rw [← Option.some.inj h]
  | decode ret =>
    obtain ⟨-, h⟩ := Option.ite_none_right_eq_some.mp h
    cases hverdict : codec.onMessageTurn p.inBuf with
    | more | fail error =>
      rw [hverdict, Peer.decode] at h
      rw [← Option.some.inj h]
    | item n m =>
      rw [hverdict, Peer.decode] at h
      rw [(Peer.advance_keeps h).1, calls_onRpcMessage]
  | resume =>
    obtain ⟨frame, -, rfl⟩ := Option.map_eq_some_iff.mp h
    cases frame <;> rfl
  | runPosted ret =>
    unfold Peer.loopStep at h
    cases hposted : p.posted with
    | nil => simp [hposted] at h
    | cons posted rest =>
      simp only [hposted] at h
      rw [(Peer.advance_keeps (Option.ite_none_left_eq_some.mp h).2).1]
      cases posted <;> rfl
  | write ret =>
    obtain ⟨-, h⟩ := Option.ite_none_left_eq_some.mp h
    rw [← Option.some.inj h]

/-- The states that runs lead to, with fewer calls than there are ids. -/
structure Reached (codec : ProtobufCodecLite) (start s : RpcOverTcp M) : Prop where
  run : ∃ es, Guarded (step codec) (StepFits codec) start es ∧
    Run.run (step codec) start es = some s
  calls : s.client.endpoint.calls.length < 2 ^ 64

lemma Reached.event (h : Reached codec start s) {ev : Event M} (hfits : StepFits codec s ev)
    (hstep : step codec s ev = some t)
    (hcalls : t.client.endpoint.calls = s.client.endpoint.calls) : Reached codec start t where
  run := by
    obtain ⟨es, hguard, hrun⟩ := h.run
    refine ⟨es ++ [ev], guarded_append.mpr ⟨hguard, ?_⟩, run_append.mpr ⟨s, hrun, ?_⟩⟩
    · intro u hu
      rw [hrun, Option.some.injEq] at hu
      subst hu
      exact fun _ _ => ⟨hfits, trivial⟩
    · exact run_single hstep
  calls := hcalls ▸ h.calls

lemma Reached.loopStep (h : Reached codec start s) (hstep : LoopStep codec s t) :
    Reached codec start t := by
  cases hstep with
  | client ev _ hfits hstep =>
    refine h.event hfits hstep ?_
    rw [step] at hstep
    obtain ⟨-, q, hq, rfl⟩ := clientStep_eq_some.mp hstep
    exact calls_loopStep hq
  | server ev _ hfits hstep =>
    refine h.event hfits hstep ?_
    rw [step] at hstep
    obtain ⟨-, q, -, rfl⟩ := serverStep_eq_some.mp hstep
    rfl

end Drain

/-- With nothing on its way an id is outstanding for a call before its send, or for a request that
a service holds. -/
lemma Related.keys_perm {s : RpcOverTcp M} {a : RpcConnection M} (h : Related codec s a)
    (hwire : RpcConnection.Wire a) (hclient : s.client.posted = []) (hserver : s.server.posted = [])
    (hup : s.server.endpoint.received = s.client.endpoint.sent)
    (hdown : s.client.endpoint.received = s.server.endpoint.sent) :
    s.client.endpoint.channel.outstandings.keys.Perm
      (s.client.endpoint.registered.map Call.id ++
        s.server.endpoint.pending.map PendingDone.id) := by
  have hopen := hwire.open_eq
  have htoServer : a.toServer = [] := by
    rw [RpcConnection.toServer, sent_of_matches h.client, received_of_matches h.server, hup,
      List.drop_length]
  have htoClient : a.toClient = [] := by
    rw [RpcConnection.toClient, sent_of_matches h.server, received_of_matches h.client, hdown,
      List.drop_length]
  obtain ⟨registered, pending, hr, -, heq⟩ := h.client
  obtain ⟨registered', pending', -, hp, heq'⟩ := h.server
  simp only [hclient, List.filterMap_nil, List.append_nil] at hr
  simp only [hserver, List.filterMap_nil, List.append_nil] at hp
  rw [RpcConnection.openIds, htoServer, htoClient, heq, heq'] at hopen
  simp only [List.map_nil, Multiset.coe_nil, add_zero, Multiset.coe_add, Multiset.coe_eq_coe]
    at hopen
  exact hopen.symm.trans ((hr.map _).append (hp.map _))

open ProtobufCodecLite (kMaxMessageLen rpcCodec frames_generated fits_errorReply)

section Generated

variable {υ : Type} {w : WireFormat υ} {clientId serverId : CallId} {services : List (Service M)}
  {clientfd serverfd : ℤ} {s : RpcOverTcp M}

lemma Reached.balanced (hmax : kMaxMessageLen ≤ w.maxStringSize)
    (h : Reached (rpcCodec w) (initial clientId serverId services clientfd serverfd) s) :
    ∃ a, Related (rpcCodec w) s a ∧ RpcConnection.Balanced clientId
      (RpcChannel.new serverId (some (registerServices services))) a := by
  obtain ⟨es, hguard, hrun⟩ := h.run
  obtain ⟨ds, a, hds, hrelated⟩ := related_run hmax hguard hrun
  refine ⟨a, hrelated, RpcConnection.balanced_run hds ?_⟩
  obtain ⟨registered, pending, -, -, hclient⟩ := hrelated.client
  rw [hclient]
  exact h.calls

end Generated

end RpcOverTcp

end RpcMuduo
