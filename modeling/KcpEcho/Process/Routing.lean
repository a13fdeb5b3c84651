import KcpEcho.Process.Handlers

/-!
# Where a session's datagrams end up

What one end's session emits, the other end's `udp_recv_cb` must take for KCP data of that
conversation and `ikcp_input` must accept, whatever state the receiving session is in. The emitting
half is `Framed.update_datagram`; this file follows the datagram through the receiving handler.
-/

namespace KcpEcho

open Proc

/-- Every session of `p` is still there in `p'`, under the same table. -/
structure Kept (p p' : Proc) : Prop where
  kcpMap : p'.kcpMap = p.kcpMap
  live : ∀ {x k ctx kcp}, Live p x ctx k kcp → ∃ ctx' kcp', Live p' x ctx' k kcp'

theorem Proc.Grown.kept {p p' : Proc} (h : Grown p p') : Kept p p' :=
  ⟨h.kcpMap, fun hl ↦ ⟨_, _, h.live.mpr hl⟩⟩

theorem Proc.Live.kept_used {p : Proc} {x k : Ptr} {ctx ctx' : KcpContext} {kcp kcp' : Ikcpcb}
    (h : Live p x ctx k kcp) (hm : Moved ctx ctx' kcp kcp') : Kept p (p.used x ctx' k kcp') where
  kcpMap := rfl
  live := by
    intro y j ctx₁ kcp₁ hl
    rcases eq_or_ne y x with rfl | hne
    · obtain ⟨-, rfl, -⟩ := h.unique hl
      exact ⟨ctx', kcp', h.used_self hm⟩
    · exact ⟨ctx₁, kcp₁, h.used_of_ne hl hne⟩

theorem Kept.trans {p p' p'' : Proc} (h : Kept p p') (h' : Kept p' p'') : Kept p p'' where
  kcpMap := h'.kcpMap.trans h.kcpMap
  live hl := by
    obtain ⟨_, _, hl'⟩ := h.live hl
    exact h'.live hl'

/-- An accepted datagram ends no session of the server, and goes to the control block filed under its
conversation. -/
theorem Server.recvKcp_kept {env : Env} {addr : SockAddr} {conv : UInt32} {data : List UInt8}
    {p : Proc} (hp : Sound p) (hacc : Acceptable conv data) :
    ∃ p', Server.recvKcp env addr conv data p = some p' ∧ Kept p p' ∧
      ∀ k kcp, p.kcpMap.lookup conv = some k → p.kcps k = some kcp →
        p'.kcps = Function.update p.kcps k (some (echo (ikcpInput kcp data).1).1) := by
  cases hc : p.kcpMap.lookup conv with
  | none =>
    exact ⟨_, Server.recvKcp_of_unknown hc, (grown_sendUdpPacket _ _ _ _).kept,
      fun _ _ hk ↦ nomatch hk⟩
  | some k =>
    obtain ⟨ctx, kcp, hlive, rfl⟩ := hp.live_of_entry hc
    have hok : 0 ≤ (ikcpInput kcp data).2 := (ikcpInput_nonneg_iff kcp data).mpr hacc
    have hm : Moved ctx { ctx with lastRecvTime := env.now32 } kcp
        (echo (ikcpInput kcp data).1).1 :=
      ⟨rfl, fun cb ↦ by cases cb <;> rfl, (Evolves.input kcp data).trans (.echo _)⟩
    refine ⟨_, Server.recvKcp_of_accepted hc hlive hok,
      (grown_uses p _).kept.trans ((hlive.uses _).kept_used hm), ?_⟩
    intro j kcp' hj hkcp'
    obtain rfl := Option.some.inj hj
    obtain rfl := Option.some.inj (hlive.kcp_at.symm.trans hkcp')
    rfl

/-- So it is with the client. -/
theorem Client.recvKcp_kept {env : Env} {addr : SockAddr} {conv : UInt32} {data : List UInt8}
    {c : Client} (hp : Sound c.proc) (hacc : Acceptable conv data) :
    ∃ c', Client.recvKcp env addr conv data c = some c' ∧ Kept c.proc c'.proc ∧
      ∀ k kcp, c.proc.kcpMap.lookup conv = some k → c.proc.kcps k = some kcp →
        c'.proc.kcps = Function.update c.proc.kcps k (some (drain (ikcpInput kcp data).1).1) := by
  cases hc : c.proc.kcpMap.lookup conv with
  | none =>
    exact ⟨c, Client.recvKcp_of_unknown hc, (Grown.refl _).kept, fun _ _ hk ↦ nomatch hk⟩
  | some k =>
    obtain ⟨ctx, kcp, hlive, rfl⟩ := hp.live_of_entry hc
    have hok : 0 ≤ (ikcpInput kcp data).2 := (ikcpInput_nonneg_iff kcp data).mpr hacc
    have hm : Moved ctx ctx kcp (drain (ikcpInput kcp data).1).1 :=
      .of_evolves ctx ((Evolves.input kcp data).trans (.drain _))
    refine ⟨_, Client.recvKcp_of_accepted hc hlive hok,
      (grown_uses c.proc _).kept.trans ((hlive.uses _).kept_used hm), ?_⟩
    intro j kcp' hj hkcp'
    obtain rfl := Option.some.inj hj
    obtain rfl := Option.some.inj (hlive.kcp_at.symm.trans hkcp')
    rfl

/-- What it means that a datagram of conversation `conv` is sound on the wire and finds its way. -/
structure Routed (conv : UInt32) (d : List UInt8) : Prop where
  length_ge : 24 ≤ d.length
  length_le : d.length ≤ 1400
  conv_eq : decode32u d = conv
  /-- Complete segments of the conversation, and not a byte more. -/
  segments : ∃ segs : List IkcpSeg, segs ≠ [] ∧ (∀ seg ∈ segs, seg.WellFormed conv) ∧ d = wires segs
  /-- It is not taken for a SYN, an ACK or a FIN. -/
  kind : classify d = .kcp conv
  ne_control : ∀ cmd c, (udpPacket cmd c).length = 5 ∧ d ≠ udpPacket cmd c
  /-- Any control block of the conversation accepts it, in any state. -/
  accepted : ∀ kcp : Ikcpcb, kcp.conv = conv → (ikcpInput kcp d).2 = 0
  /-- The server looks up the conversation, and ends no session; the control block filed under the
  conversation takes the datagram in, and no other changes. -/
  server : ∀ env addr p, Server.udpRecvCb env addr d p = Server.recvKcp env addr conv d p ∧
    (Sound p → ∃ p', Server.udpRecvCb env addr d p = some p' ∧ Kept p p' ∧
      ∀ k kcp, p.kcpMap.lookup conv = some k → p.kcps k = some kcp →
        p'.kcps = Function.update p.kcps k (some (echo (ikcpInput kcp d).1).1))
  /-- So does the client. -/
  client : ∀ env addr c, Client.udpRecvCb env addr d c = Client.recvKcp env addr conv d c ∧
    (Sound c.proc → ∃ c', Client.udpRecvCb env addr d c = some c' ∧ Kept c.proc c'.proc ∧
      ∀ k kcp, c.proc.kcpMap.lookup conv = some k → c.proc.kcps k = some kcp →
        c'.proc.kcps = Function.update c.proc.kcps k (some (drain (ikcpInput kcp d).1).1))

theorem SessionDatagram.acceptable {conv : UInt32} {d : List UInt8} (h : SessionDatagram conv d) :
    Acceptable conv d := by
  obtain ⟨segs, hne, hsegs, rfl, -⟩ := h
  exact ⟨segs, [], hne, hsegs, by decide, (List.append_nil _).symm⟩

theorem SessionDatagram.classify_eq {conv : UInt32} {d : List UInt8} (h : SessionDatagram conv d) :
    classify d = .kcp conv := by
  rw [classify_of_length_ge h.length_ge, decode32u, h.decode_conv]

/-- What a handler utters is a FIN or belongs to one of its sessions. -/
theorem Proc.Utters.kinds {p p' : Proc} (h : Utters p p') :
    ∃ out, p'.outbox = p.outbox ++ out ∧ ∀ pkt ∈ out, (∃ conv, classify pkt.bytes = .fin conv) ∨
      ∃ x ctx k kcp, Live p x ctx k kcp ∧ classify pkt.bytes = .kcp kcp.conv := by
  obtain ⟨out, hout, hsaid⟩ := h
  refine ⟨out, hout, ?_⟩
  intro pkt hpkt
  rcases hsaid pkt hpkt with ⟨conv, heq⟩ | ⟨x, ctx, k, kcp, hlive, hd⟩
  · exact .inl ⟨conv, by rw [heq, classify_fin]⟩
  · exact .inr ⟨x, ctx, k, kcp, hlive, hd.classify_eq⟩

theorem SessionDatagram.routed {conv : UInt32} {d : List UInt8} (h : SessionDatagram conv d) :
    Routed conv d where
  length_ge := h.length_ge
  length_le := h.length_le
  conv_eq := h.decode_conv
  segments := by
    obtain ⟨segs, hne, hsegs, hd, -⟩ := h
    exact ⟨segs, hne, hsegs, hd⟩
  kind := h.classify_eq
  ne_control cmd c := by
    refine ⟨length_udpPacket cmd c, ?_⟩
    rintro rfl
    exact absurd h.length_ge (by rw [length_udpPacket]; decide)
  accepted _ hconv := h.ikcpInput hconv
  server env addr p := by
    rw [Server.udpRecvCb_eq, h.classify_eq]
    exact ⟨rfl, fun hp ↦ Server.recvKcp_kept hp h.acceptable⟩
  client env addr c := by
    rw [Client.udpRecvCb_eq, h.classify_eq]
    exact ⟨rfl, fun hp ↦ Client.recvKcp_kept hp h.acceptable⟩

/-- **No honest datagram is misrouted or kills a session.** Whatever a session has been through,
what `ikcp_update` makes it emit is between 24 and 1400 bytes of complete segments of its own
conversation, and the peer's handler delivers it to that conversation, where it is accepted. -/
theorem session_datagram_routed {conv : UInt32} {user : Ptr} {kcp : Ikcpcb}
    (h : (session conv user).Reachable kcp) (current : UInt32) {d : List UInt8}
    (hd : d ∈ (ikcpUpdate kcp current).2) : Routed conv d :=
  (((Framed.inductive_session conv user).reachable h).update_datagram current d hd).routed

/-- A session that has one byte to send emits a datagram at its first update. -/
theorem session_datagram_routed_first : Routed 1001
    (((ikcpUpdate (ikcpSend (configuredKcp 1001 0) [7]).1 0).2).headD []) := by
  have hsent : (session 1001 0).Reachable (ikcpSend (configuredKcp 1001 0) [7]).1 :=
    .step (.init rfl) (rfl : _ = (configuredKcp 1001 0).after (.send [7]))
  exact session_datagram_routed hsent 0 (by decide)

end KcpEcho
