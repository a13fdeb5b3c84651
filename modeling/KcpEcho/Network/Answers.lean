import KcpEcho.Table.ClientTable

/-!
# What a datagram is answered with

Either `udp_recv_cb` answers a datagram with at most one control packet, and which one depends on
the kind of the datagram alone. This holds in any memory, sound or not: a handler that gets to its
end has sent no more than that, whatever it has found on its way.
-/

namespace KcpEcho

namespace Proc

/-! ## Functions that send nothing -/

section Silent

variable {p p' : Proc} {x k t : Ptr}

theorem outbox_readCtx {ctx : KcpContext} (h : p.readCtx x = some (p', ctx)) :
    p'.outbox = p.outbox := by
  obtain ⟨_, -, heq⟩ := Option.map_eq_some_iff.mp h
  cases heq
  rfl

theorem outbox_readKcp {kcp : Ikcpcb} (h : p.readKcp k = some (p', kcp)) :
    p'.outbox = p.outbox := by
  obtain ⟨_, -, heq⟩ := Option.map_eq_some_iff.mp h
  cases heq
  rfl

theorem outbox_freeCtx (h : p.freeCtx x = some p') : p'.outbox = p.outbox := by
  obtain ⟨_, -, rfl⟩ := Option.map_eq_some_iff.mp h
  rfl

theorem outbox_uvClose (h : p.uvClose t = some p') : p'.outbox = p.outbox := by
  rw [uvClose] at h
  split at h
  · cases h
    rfl
  · cases h

theorem outbox_closeUpdateTimer (h : p.closeUpdateTimer x = some p') : p'.outbox = p.outbox := by
  obtain ⟨⟨p₁, ctx⟩, hread, h⟩ := Option.bind_eq_some_iff.mp h
  dsimp only at h
  split at h
  · cases h
    exact outbox_readCtx hread
  · obtain ⟨p₂, hclose, h⟩ := Option.bind_eq_some_iff.mp h
    cases h
    exact (outbox_uvClose hclose).trans (outbox_readCtx hread)

theorem outbox_closeSendTimer (h : p.closeSendTimer x = some p') : p'.outbox = p.outbox := by
  obtain ⟨⟨p₁, ctx⟩, hread, h⟩ := Option.bind_eq_some_iff.mp h
  dsimp only at h
  split at h
  · cases h
    exact outbox_readCtx hread
  · obtain ⟨p₂, hclose, h⟩ := Option.bind_eq_some_iff.mp h
    cases h
    exact (outbox_uvClose hclose).trans (outbox_readCtx hread)

theorem outbox_ikcpRelease (h : p.ikcpRelease k = some p') : p'.outbox = p.outbox := by
  obtain ⟨⟨p₁, kcp⟩, hread, h⟩ := Option.bind_eq_some_iff.mp h
  have hread := outbox_readKcp hread
  cases h
  exact hread

theorem outbox_deleteCtx (h : p.deleteCtx x = some p') : p'.outbox = p.outbox := by
  obtain ⟨p₁, hupdate, h⟩ := Option.bind_eq_some_iff.mp h
  obtain ⟨p₂, hsend, h⟩ := Option.bind_eq_some_iff.mp h
  obtain ⟨⟨p₃, ctx⟩, hread, h⟩ := Option.bind_eq_some_iff.mp h
  have hclosed : p₃.outbox = p.outbox := (outbox_readCtx hread).trans
    ((outbox_closeSendTimer hsend).trans (outbox_closeUpdateTimer hupdate))
  dsimp only at h
  split at h
  · exact (outbox_freeCtx h).trans hclosed
  · obtain ⟨p₄, hrelease, h⟩ := Option.bind_eq_some_iff.mp h
    exact (outbox_freeCtx h).trans ((outbox_ikcpRelease hrelease).trans hclosed)

end Silent

end Proc

/-! ## The server -/

namespace Server

open Proc

/-- What the server may send in answer to a datagram from `addr`. -/
inductive Answer (addr : SockAddr) : DatagramKind → List Packet → Prop
  | nothing (kind : DatagramKind) : Answer addr kind []
  | ack (key conv : UInt32) : Answer addr (.syn key) [⟨some addr, udpPacket 2 conv⟩]
  | fin (conv conv' : UInt32) : Answer addr (.kcp conv) [⟨some addr, udpPacket 3 conv'⟩]

theorem answer_recvFin {conv : UInt32} {p p' : Proc} (h : recvFin conv p = some p') :
    p'.outbox = p.outbox := by
  rw [recvFin] at h
  split at h
  · cases h
    rfl
  · obtain ⟨⟨p₁, kcp⟩, hread, h⟩ := Option.bind_eq_some_iff.mp h
    have hread := outbox_readKcp hread
    obtain ⟨p₂, hdelete, h⟩ := Option.bind_eq_some_iff.mp h
    have hdelete := outbox_deleteCtx hdelete
    cases h
    exact hdelete.trans hread

theorem answer_recvKcp {env : Env} {addr : SockAddr} {conv : UInt32} {data : List UInt8}
    {p p' : Proc} (h : recvKcp env addr conv data p = some p') :
    p'.outbox = p.outbox ∨
      ∃ conv', p'.outbox = p.outbox ++ [⟨some addr, udpPacket 3 conv'⟩] := by
  rw [recvKcp] at h
  split at h
  · cases h
    exact .inr ⟨conv, rfl⟩
  · obtain ⟨⟨p₁, kcp⟩, hread, h⟩ := Option.bind_eq_some_iff.mp h
    have hread := outbox_readKcp hread
    dsimp only at h
    split at h
    · -- refused: the session is deleted, then the FIN is sent
      obtain ⟨⟨p₂, kcp₂⟩, hread₂, h⟩ := Option.bind_eq_some_iff.mp h
      have hread₂ := outbox_readKcp hread₂
      obtain ⟨p₃, hdelete, h⟩ := Option.bind_eq_some_iff.mp h
      have hsame : p₃.outbox = p.outbox := (outbox_deleteCtx hdelete).trans (hread₂.trans hread)
      cases h
      exact .inr ⟨_, congrArg (· ++ _) hsame⟩
    · -- accepted: the echo goes into the send queue, not onto the wire
      obtain ⟨⟨p₂, ctx⟩, hread₂, h⟩ := Option.bind_eq_some_iff.mp h
      have hread₂ := outbox_readCtx hread₂
      cases h
      exact .inl (hread₂.trans hread)

/-- **What the server answers**, as long as it has memory for the sessions it opens. -/
theorem answer {env : Env} (hok : env.CreateOk) {addr : SockAddr} {data : List UInt8} {p p' : Proc}
    (h : udpRecvCb env addr data p = some p') :
    ∃ out, p'.outbox = p.outbox ++ out ∧ Answer addr (classify data) out := by
  rw [udpRecvCb_eq] at h
  cases hkind : classify data with
  | syn key =>
    rw [hkind] at h
    dsimp only at h
    rw [recvSyn_of_createOk hok] at h
    cases h
    exact ⟨_, outbox_synAnswered _ _ _, .ack key _⟩
  | fin conv =>
    rw [hkind] at h
    exact ⟨[], by rw [answer_recvFin h, List.append_nil], .nothing _⟩
  | kcp conv =>
    rw [hkind] at h
    rcases answer_recvKcp h with hsame | ⟨conv', hout⟩
    · exact ⟨[], by rw [hsame, List.append_nil], .nothing _⟩
    · exact ⟨_, hout, .fin conv conv'⟩
  | ack | other =>
    rw [hkind] at h
    cases h
    exact ⟨[], (List.append_nil _).symm, .nothing _⟩

end Server

/-! ## The client -/

namespace Client

open Proc

/-- What the client may send in answer to a datagram from `addr`. -/
inductive Answer (addr : SockAddr) : DatagramKind → List Packet → Prop
  | nothing (kind : DatagramKind) : Answer addr kind []
  | syn (conv key : UInt32) : Answer addr (.fin conv) [⟨none, udpPacket 1 key⟩]
  | fin (conv conv' : UInt32) : Answer addr (.kcp conv) [⟨some addr, udpPacket 3 conv'⟩]

theorem answer_recvFin {env : Env} {conv : UInt32} {c c' : Client}
    (h : recvFin env conv c = some c') : c'.proc.outbox = c.proc.outbox ∨
      c'.proc.outbox = c.proc.outbox ++ [⟨none, udpPacket 1 env.rand⟩] := by
  rw [recvFin] at h
  split at h
  · cases h
    exact .inl rfl
  · obtain ⟨⟨p₁, kcp⟩, hread, h⟩ := Option.bind_eq_some_iff.mp h
    have hread := outbox_readKcp hread
    obtain ⟨p₂, hdelete, h⟩ := Option.bind_eq_some_iff.mp h
    have hsame : p₂.outbox = c.proc.outbox := (outbox_deleteCtx hdelete).trans hread
    cases h
    exact .inr (congrArg (· ++ _) hsame)

theorem answer_recvKcp {env : Env} {addr : SockAddr} {conv : UInt32} {data : List UInt8}
    {c c' : Client} (h : recvKcp env addr conv data c = some c') :
    c'.proc.outbox = c.proc.outbox ∨
      ∃ conv', c'.proc.outbox = c.proc.outbox ++ [⟨some addr, udpPacket 3 conv'⟩] := by
  rw [recvKcp] at h
  split at h
  · cases h
    exact .inl rfl
  · obtain ⟨⟨p₁, kcp⟩, hread, h⟩ := Option.bind_eq_some_iff.mp h
    have hread := outbox_readKcp hread
    dsimp only at h
    split at h
    · obtain ⟨⟨p₂, kcp₂⟩, hread₂, h⟩ := Option.bind_eq_some_iff.mp h
      have hread₂ := outbox_readKcp hread₂
      obtain ⟨p₃, hfree, h⟩ := Option.bind_eq_some_iff.mp h
      have hfree := outbox_freeCtx hfree
      obtain ⟨p₄, hrelease, h⟩ := Option.bind_eq_some_iff.mp h
      have hsame : p₄.outbox = c.proc.outbox :=
        (outbox_ikcpRelease hrelease).trans (hfree.trans (hread₂.trans hread))
      cases h
      exact .inr ⟨_, congrArg (· ++ _) hsame⟩
    · cases h
      exact .inl hread

/-- **What the client answers**, as long as it has memory for the sessions it installs. -/
theorem answer {env : Env} (hok : env.CreateOk) {addr : SockAddr} {data : List UInt8}
    {c c' : Client} (h : udpRecvCb env addr data c = some c') :
    ∃ out, c'.proc.outbox = c.proc.outbox ++ out ∧ Answer addr (classify data) out := by
  rw [udpRecvCb_eq] at h
  cases hkind : classify data with
  | ack convOrKey =>
    rw [hkind] at h
    dsimp only at h
    rw [recvAck_of_createOk hok] at h
    cases h
    exact ⟨[], by rw [outbox_ackInstalled, List.append_nil], .nothing _⟩
  | fin conv =>
    rw [hkind] at h
    rcases answer_recvFin h with hsame | hout
    · exact ⟨[], by rw [hsame, List.append_nil], .nothing _⟩
    · exact ⟨_, hout, .syn conv env.rand⟩
  | kcp conv =>
    rw [hkind] at h
    rcases answer_recvKcp h with hsame | ⟨conv', hout⟩
    · exact ⟨[], by rw [hsame, List.append_nil], .nothing _⟩
    · exact ⟨_, hout, .fin conv conv'⟩
  | syn | other =>
    rw [hkind] at h
    cases h
    exact ⟨[], (List.append_nil _).symm, .nothing _⟩

end Client
end KcpEcho
