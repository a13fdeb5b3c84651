import KcpEcho.Session.Progress

/-!
# Every session can be brought to its end

The rounds of `KcpEcho.Session.Progress`, put together. From any state of a session, with any of the
datagrams in flight lost, the client's segments are brought to the server one window start at a
time, and then the server's echo to the client, until nothing is outstanding at either end
(`session_recovers`). By the safety of the session everything the client had written has then been
echoed.
-/

namespace KcpEcho

open SelectiveRepeat

/-! ## What is outstanding -/

/-- The segments an end has still to get acknowledged, sent or not. -/
def Ikcpcb.unfinished (kcp : Ikcpcb) : ℕ := ahead kcp.sndNxt kcp.sndUna + kcp.sndQueue.length

section Handlers

theorem echoLoop_acklist (fuel : ℕ) (kcp : Ikcpcb) (log : EchoLog) :
    (echoLoop fuel kcp log).1.acklist = kcp.acklist := by
  induction fuel generalizing kcp log with
  | zero => rfl
  | succ fuel ih =>
    have hsend : ∀ (kcp : Ikcpcb) (buffer : List UInt8),
        (ikcpSend kcp buffer).1.acklist = kcp.acklist :=
      fun kcp buffer ↦ acklist_of_recvSide (ikcpSend_frame kcp buffer).2
    rw [echoLoop]
    dsimp only
    split
    · exact ikcpRecv_acklist _ _
    · split
      · exact (hsend _ _).trans (ikcpRecv_acklist _ _)
      · exact (ih _ _).trans ((hsend _ _).trans (ikcpRecv_acklist _ _))

theorem drainLoop_acklist (fuel : ℕ) (kcp : Ikcpcb) (taken : List UInt8) :
    (drainLoop fuel kcp taken).1.acklist = kcp.acklist := by
  induction fuel generalizing kcp taken with
  | zero => rfl
  | succ fuel ih =>
    rw [drainLoop]
    dsimp only
    split
    · exact ikcpRecv_acklist _ _
    · exact (ih _ _).trans (ikcpRecv_acklist _ _)

theorem drainLoop_sendSide (fuel : ℕ) (kcp : Ikcpcb) (taken : List UInt8) :
    (drainLoop fuel kcp taken).1.sendSide = kcp.sendSide := by
  induction fuel generalizing kcp taken with
  | zero => rfl
  | succ fuel ih =>
    rw [drainLoop]
    dsimp only
    split
    · exact (ikcpRecv_frame _ _).2
    · exact (ih _ _).trans (ikcpRecv_frame _ _).2

theorem echo_acklist (kcp : Ikcpcb) : (echo kcp).1.acklist = kcp.acklist := echoLoop_acklist _ _ _

theorem drain_acklist (kcp : Ikcpcb) : (drain kcp).1.acklist = kcp.acklist :=
  drainLoop_acklist _ _ _

theorem drain_sendSide (kcp : Ikcpcb) : (drain kcp).1.sendSide = kcp.sendSide :=
  drainLoop_sendSide _ _ _

theorem echo_of_empty {kcp : Ikcpcb} (h : kcp.rcvQueue = []) : echo kcp = (kcp, {}) := by
  rw [echo, echoLoop, ikcpRecv_of_empty h]
  rfl

theorem length_sndQueue_of_queue {kcp kcp' : Ikcpcb}
    (h : kcp'.sendSide.queue = kcp.sendSide.queue) :
    kcp'.sndQueue.length = kcp.sndQueue.length := by
  simpa [Ikcpcb.sendSide] using congrArg List.length h

end Handlers

namespace Endpoint

variable {conv : UInt32} {user : Ptr} {kcp : Ikcpcb} {out inn : Stream}
  {written taken : List UInt8}

theorem unfinished_eq (h : Endpoint conv user kcp out inn written taken) (hout : out.Sound) :
    kcp.unfinished = out.sent.length - out.una + kcp.sndQueue.length := by
  have hchain := hout.inv.chain
  have hnxt : kcp.sndNxt = UInt32.ofNat out.sent.length := h.send.nxt
  have huna : kcp.sndUna = UInt32.ofNat out.una := h.send.una
  have hahead : ahead kcp.sndNxt kcp.sndUna = out.sent.length - out.una := by
    rw [hnxt, huna, ahead, UInt32.toBitVec_ofNat', UInt32.toBitVec_ofNat',
      Serial.elapsed_ofNat (by omega), Nat.mod_eq_of_lt]
    rw [sessionWindow] at hchain
    omega
  rw [Ikcpcb.unfinished, hahead]

theorem pending_of_unfinished (h : Endpoint conv user kcp out inn written taken) (hout : out.Sound)
    (hne : kcp.unfinished ≠ 0) : kcp.sndBuf ≠ [] ∨ kcp.sndQueue ≠ [] := by
  by_contra hnot
  obtain ⟨hbuf, hqueue⟩ := not_or.mp hnot
  have hnone : out.unacked = ∅ := by
    have henum := h.send.buf
    rw [Ikcpcb.sendSide, not_not.mp hbuf] at henum
    exact henum.eq_empty
  rw [h.unfinished_eq hout, hout.inv.una_eq_length hnone, not_not.mp hqueue] at hne
  simp at hne

/-- An update assigns numbers to segments that were outstanding before. -/
theorem unfinished_update (h : Endpoint conv user kcp out inn written taken) (hout : out.Sound)
    (hinn : inn.Sound) (current : UInt32) :
    (KcpEcho.ikcpUpdate kcp current).1.unfinished = kcp.unfinished ∧
      (KcpEcho.ikcpUpdate kcp current).1.sndUna = kcp.sndUna ∧
      (KcpEcho.ikcpUpdate kcp current).1.rcvNxt = kcp.rcvNxt := by
  obtain ⟨ds, granted, hout', -, -, h', hlen, -⟩ := h.ikcpUpdate hout hinn current
  have hchain := hout.inv.chain
  have huna : Link.una { out with sent := out.sent ++ ds } = out.una := rfl
  refine ⟨?_, h'.send.una.trans h.send.una.symm, h'.recv.nxt.trans h.recv.nxt.symm⟩
  rw [h'.unfinished_eq hout', h.unfinished_eq hout, huna, List.length_append]
  omega

/-- The loops hand out what has arrived, and leave two ends of the same streams. -/
theorem echo_end (h : Endpoint conv user kcp out inn written taken) (hinn : inn.Sound) :
    ∃ more, Endpoint conv user (echo kcp).1 out inn (written ++ more) (taken ++ more) := by
  obtain ⟨more, -, h', -⟩ := h.echoLoop hinn (Nat.lt_succ_of_le (Nat.le_add_right _ _)) {}
  exact ⟨more, h'⟩

theorem drain_end (h : Endpoint conv user kcp out inn written taken) (hinn : inn.Sound) :
    ∃ more, Endpoint conv user (drain kcp).1 out inn written (taken ++ more) := by
  obtain ⟨more, -, h', -⟩ := h.drainLoop hinn (Nat.lt_succ_of_le (Nat.le_add_right _ _)) []
  exact ⟨more, h'⟩

/-- **The oldest segment arrives**: it is stored, and will be acknowledged. -/
theorem input_push (h : Endpoint conv user kcp out inn written taken) (hout : out.Sound)
    (hinn : inn.Sound) {outSeq innSeq : ℕ} {g : List IkcpSeg}
    (hd : Chunk (Says conv inn out innSeq outSeq) 1400 (wires g))
    (hg : ∀ seg ∈ g, seg.WellFormed conv) (houtSeq : out.sent.length < outSeq + 2 ^ 29)
    (hinnSeq : inn.sent.length < innSeq + 2 ^ 29) {seg : IkcpSeg} (hseg : seg ∈ g)
    (hcmd : seg.cmd = ikcpCmdPush) (hsn : seg.sn = UInt32.ofNat inn.una) :
    (KcpEcho.ikcpInput kcp (wires g)).2 = 0 ∧
      (KcpEcho.ikcpInput kcp (wires g)).1.acklist ≠ [] ∧
      (KcpEcho.ikcpInput kcp (wires g)).1.rcvNxt ≠ UInt32.ofNat inn.una ∧
      ∃ acked got : Set ℕ, Stream.Sound { out with acked := acked } ∧
        Stream.Sound { inn with got := got } ∧
        Endpoint conv user (KcpEcho.ikcpInput kcp (wires g)).1 { out with acked := acked }
          { inn with got := got } written taken ∧
        out.una ≤ Link.una { out with acked := acked } := by
  obtain ⟨hret, acked, got, hacked, hgot, hout', hinn', h', hlearnt⟩ :=
    h.ikcpInput_learnt hout hinn hd hg houtSeq hinnSeq
  obtain ⟨hacks, k, hk, hsame, hlt, hnear⟩ :=
    (hlearnt seg hseg).push ((hg seg hseg).header_cmd.trans hcmd)
  have hchain := hinn'.inv.chain
  have hsame : UInt32.ofNat inn.una = UInt32.ofNat k := hsn.symm.trans hsame
  have huna : Link.una { inn with got := got } = inn.una := rfl
  rw [sessionWindow, huna] at hchain
  dsimp only at hchain
  obtain rfl := (ofNat32_inj (by constructor <;> omega)).mp hsame
  -- everything below the window start was there already
  have hpast : inn.una + 1 ≤ Link.nxt { inn with got := got } := by
    refine le_first hinn'.inv.length_notMem_got fun j hj ↦ ?_
    rcases Nat.lt_succ_iff_lt_or_eq.mp hj with hj | rfl
    · exact hgot (hinn.inv.granted_got (hinn.inv.acked_granted (mem_of_lt_first hj)))
    · exact hk
  refine ⟨hret, hacks, ?_, acked, got, hout', hinn', h', ?_⟩
  · rw [show (KcpEcho.ikcpInput kcp (wires g)).1.rcvNxt = _ from h'.recv.nxt]
    intro heq
    have := (ofNat32_inj (by constructor <;> omega)).mp heq
    omega
  · exact first_mono hacked hout'.inv.length_notMem_acked

/-- **A report arrives**: the window starts where it says, or further on. -/
theorem input_report (h : Endpoint conv user kcp out inn written taken) (hout : out.Sound)
    (hinn : inn.Sound) {outSeq innSeq : ℕ} {g : List IkcpSeg}
    (hd : Chunk (Says conv inn out innSeq outSeq) 1400 (wires g))
    (hg : ∀ seg ∈ g, seg.WellFormed conv) (houtSeq : out.sent.length < outSeq + 2 ^ 29)
    (hinnSeq : inn.sent.length < innSeq + 2 ^ 29) {seg : IkcpSeg} (hseg : seg ∈ g) {n : ℕ}
    (huna : seg.una = UInt32.ofNat n) (hn : n ≤ out.sent.length)
    (hnear : out.sent.length ≤ n + sessionWindow) :
    (KcpEcho.ikcpInput kcp (wires g)).2 = 0 ∧
      ∃ acked got : Set ℕ, Stream.Sound { out with acked := acked } ∧
        Stream.Sound { inn with got := got } ∧
        Endpoint conv user (KcpEcho.ikcpInput kcp (wires g)).1 { out with acked := acked }
          { inn with got := got } written taken ∧
        n ≤ Link.una { out with acked := acked } := by
  obtain ⟨hret, acked, got, -, -, hout', hinn', h', hlearnt⟩ :=
    h.ikcpInput_learnt hout hinn hd hg houtSeq hinnSeq
  obtain ⟨u, hle, hu, hclose, hbelow⟩ := (hlearnt seg hseg).una
  have hsame : UInt32.ofNat n = UInt32.ofNat u := huna.symm.trans hu
  rw [sessionWindow] at hnear
  obtain rfl := (ofNat32_inj (by constructor <;> omega)).mp hsame
  exact ⟨hret, acked, got, hout', hinn', h', le_first hout'.inv.length_notMem_acked hbelow⟩

end Endpoint

/-! ## The system -/

namespace Pair

variable {conv : UInt32} {clientUser serverUser : Ptr} {s : Pair}

/-- What the argument needs of a state: it represents two streams, and no window is closed, nor will
be by what is in flight. -/
structure Healthy (conv : UInt32) (clientUser serverUser : Ptr) (s : Pair) : Prop where
  represents : ∃ up down, s.Represents conv clientUser serverUser up down
  client : s.client.rmtWnd ≠ 0
  server : s.server.rmtWnd ≠ 0
  flights : ∀ f ∈ s.toServer ++ s.toClient, OpenDatagram conv f.bytes

namespace Healthy

theorem init (conv : UInt32) (clientUser serverUser : Ptr) :
    Healthy conv clientUser serverUser (start conv clientUser serverUser) where
  represents := ⟨_, _, .start conv clientUser serverUser⟩
  client := (by decide : ikcpWndRcv ≠ 0)
  server := (by decide : ikcpWndRcv ≠ 0)
  flights _ hf := absurd hf List.not_mem_nil

theorem send (h : s.Healthy conv clientUser serverUser) (buffer : List UInt8) :
    (s.send buffer).Healthy conv clientUser serverUser where
  represents := by
    obtain ⟨up, down, hrep⟩ := h.represents
    exact ⟨up, down, hrep.send buffer⟩
  client := (ikcpSend_rmtWnd s.client buffer).trans_ne h.client
  server := h.server
  flights := h.flights

theorem clientTick (h : s.Healthy conv clientUser serverUser) (current : UInt32) :
    (s.clientTick current).Healthy conv clientUser serverUser := by
  obtain ⟨up, down, hrep⟩ := h.represents
  refine ⟨hrep.clientTick current, (ikcpUpdate_rmtWnd s.client current).trans_ne h.client, h.server,
    ?_⟩
  intro f hf
  rcases List.mem_append.mp hf with hf | hf
  · rcases List.mem_append.mp hf with hf | hf
    · exact h.flights f (List.mem_append_left _ hf)
    · obtain ⟨d, hd, rfl⟩ := List.mem_map.mp hf
      exact hrep.client.framed.update_open hrep.client_idle current d hd
  · exact h.flights f (List.mem_append_right _ hf)

theorem serverTick (h : s.Healthy conv clientUser serverUser) (current : UInt32) :
    (s.serverTick current).Healthy conv clientUser serverUser := by
  obtain ⟨up, down, hrep⟩ := h.represents
  refine ⟨hrep.serverTick current, h.client, (ikcpUpdate_rmtWnd s.server current).trans_ne h.server,
    ?_⟩
  intro f hf
  rcases List.mem_append.mp hf with hf | hf
  · exact h.flights f (List.mem_append_left _ hf)
  · rcases List.mem_append.mp hf with hf | hf
    · exact h.flights f (List.mem_append_right _ hf)
    · obtain ⟨d, hd, rfl⟩ := List.mem_map.mp hf
      exact hrep.server.framed.update_open hrep.server_idle current d hd

theorem serverRecv (h : s.Healthy conv clientUser serverUser) {f : Flight} (hf : f ∈ s.toServer)
    (htime : s.InTime f) : (s.serverRecv f).Healthy conv clientUser serverUser := by
  obtain ⟨up, down, hrep⟩ := h.represents
  exact ⟨hrep.serverRecv hf htime, h.client, (echo_rmtWnd _).trans_ne
    ((h.flights f (List.mem_append_left _ hf)).ikcpInput_rmtWnd hrep.server.framed.conv_eq),
    h.flights⟩

theorem clientRecv (h : s.Healthy conv clientUser serverUser) {f : Flight} (hf : f ∈ s.toClient)
    (htime : s.InTime f) : (s.clientRecv f).Healthy conv clientUser serverUser := by
  obtain ⟨up, down, hrep⟩ := h.represents
  exact ⟨hrep.clientRecv hf htime, (drain_rmtWnd _).trans_ne
    ((h.flights f (List.mem_append_right _ hf)).ikcpInput_rmtWnd hrep.client.framed.conv_eq),
    h.server, h.flights⟩

theorem inductive_pair (conv : UInt32) (clientUser serverUser : Ptr) :
    (pair conv clientUser serverUser).Inductive (Healthy conv clientUser serverUser) where
  init s hs := by
    obtain rfl : s = Pair.start conv clientUser serverUser := hs
    exact init conv clientUser serverUser
  step s e s' h := by
    rintro ⟨henabled, rfl⟩
    cases e with
    | send buffer => exact h.send buffer
    | clientTick current => exact h.clientTick current
    | serverTick current => exact h.serverTick current
    | serverRecv f => exact h.serverRecv henabled.1 henabled.2.1
    | clientRecv f => exact h.clientRecv henabled.1 henabled.2.1

/-- Losing what is in flight does no harm. -/
theorem lose (h : s.Healthy conv clientUser serverUser) {toServer toClient : List Flight}
    (hserver : toServer ⊆ s.toServer) (hclient : toClient ⊆ s.toClient) :
    Healthy conv clientUser serverUser { s with toServer := toServer, toClient := toClient } where
  represents := by
    obtain ⟨up, down, hrep⟩ := h.represents
    exact ⟨up, down, { hrep with
      toServer := fun f hf ↦ hrep.toServer f (hserver hf)
      toClient := fun f hf ↦ hrep.toClient f (hclient hf) }⟩
  client := h.client
  server := h.server
  flights f hf := h.flights f <| by
    rcases List.mem_append.mp hf with hf | hf
    · exact List.mem_append_left _ (hserver hf)
    · exact List.mem_append_right _ (hclient hf)

end Healthy

/-! ## Rounds -/

/-- A step other than a call of `ikcp_send`. -/
def Unprompted (_ : Pair) (e : PairEvent) : Prop := ∀ buffer, e ≠ .send buffer

/-- `s'` is reached from `s` without the client sending anything more. -/
def Onward (conv : UInt32) (clientUser serverUser : Ptr) (s s' : Pair) : Prop :=
  ∃ n, ((pair conv clientUser serverUser).restrict Unprompted).Steps s n s'

theorem Onward.step {s' : Pair} (h : Onward conv clientUser serverUser s s') {e : PairEvent}
    (henabled : s'.Enabled e) (he : s'.Unprompted e) :
    Onward conv clientUser serverUser s (s'.after e) := by
  obtain ⟨n, hsteps⟩ := h
  exact ⟨n + 1, hsteps.succ ⟨⟨henabled, rfl⟩, he⟩⟩

theorem Onward.trans {s' s'' : Pair} (h : Onward conv clientUser serverUser s s')
    (h' : Onward conv clientUser serverUser s' s'') :
    Onward conv clientUser serverUser s s'' := by
  obtain ⟨m, hm⟩ := h
  obtain ⟨n, hn⟩ := h'
  induction hn with
  | zero => exact ⟨m, hm⟩
  | succ _ hlast ih =>
    obtain ⟨k, hk⟩ := ih
    exact ⟨k + 1, hk.succ hlast⟩

theorem Represents.in_time {up down : Stream}
    (h : s.Represents conv clientUser serverUser up down) :
    up.sent.length < s.clientSeq + 2 ^ 29 ∧ down.sent.length < s.serverSeq + 2 ^ 29 := by
  rw [h.clientSeq, h.serverSeq]
  omega

theorem inTime_now (s : Pair) (d : List UInt8) : s.InTime ⟨d, s.clientSeq, s.serverSeq⟩ :=
  ⟨Nat.lt_add_of_pos_right (by norm_num), Nat.lt_add_of_pos_right (by norm_num)⟩

namespace Healthy

/-- The client ticks, and its oldest segment leaves. -/
theorem client_pushes (h : s.Healthy conv clientUser serverUser) (hne : s.client.unfinished ≠ 0) :
    ∃ current g seg, ⟨wires g, (s.clientTick current).clientSeq, s.serverSeq⟩
        ∈ (s.clientTick current).toServer ∧ (∀ seg ∈ g, seg.WellFormed conv) ∧ seg ∈ g ∧
      seg.cmd = ikcpCmdPush ∧ seg.sn = (s.clientTick current).client.sndUna ∧
      (s.clientTick current).client.unfinished = s.client.unfinished := by
  obtain ⟨up, down, hrep⟩ := h.represents
  obtain ⟨current, hdue, seg, hseg, hcmd, hsn⟩ := hrep.client.exists_push_tick hrep.up_sound
    h.client (hrep.client.pending_of_unfinished hrep.up_sound hne)
  obtain ⟨g, hg, hmem, hread⟩ := hrep.client.framed.exists_datagram hdue hseg
  obtain ⟨hkept, huna, -⟩ := hrep.client.unfinished_update hrep.up_sound hrep.down_sound current
  exact ⟨current, g, seg, List.mem_append_right _ (List.mem_map.mpr ⟨_, hg, rfl⟩),
    hread.wellFormed, hmem, hcmd, hsn.trans huna.symm, hkept⟩

theorem server_pushes (h : s.Healthy conv clientUser serverUser) (hne : s.server.unfinished ≠ 0) :
    ∃ current g seg, ⟨wires g, s.clientSeq, (s.serverTick current).serverSeq⟩
        ∈ (s.serverTick current).toClient ∧ (∀ seg ∈ g, seg.WellFormed conv) ∧ seg ∈ g ∧
      seg.cmd = ikcpCmdPush ∧ seg.sn = (s.serverTick current).server.sndUna ∧
      (s.serverTick current).server.unfinished = s.server.unfinished := by
  obtain ⟨up, down, hrep⟩ := h.represents
  obtain ⟨current, hdue, seg, hseg, hcmd, hsn⟩ := hrep.server.exists_push_tick hrep.down_sound
    h.server (hrep.server.pending_of_unfinished hrep.down_sound hne)
  obtain ⟨g, hg, hmem, hread⟩ := hrep.server.framed.exists_datagram hdue hseg
  obtain ⟨hkept, huna, -⟩ := hrep.server.unfinished_update hrep.down_sound hrep.up_sound current
  exact ⟨current, g, seg, List.mem_append_right _ (List.mem_map.mpr ⟨_, hg, rfl⟩),
    hread.wellFormed, hmem, hcmd, hsn.trans huna.symm, hkept⟩

/-- The server receives the client's oldest segment, owes an acknowledgement, and no longer waits for
that segment. -/
theorem server_stores (h : s.Healthy conv clientUser serverUser) {g : List IkcpSeg} {seg : IkcpSeg}
    (hf : ⟨wires g, s.clientSeq, s.serverSeq⟩ ∈ s.toServer)
    (hg : ∀ seg ∈ g, seg.WellFormed conv) (hmem : seg ∈ g) (hcmd : seg.cmd = ikcpCmdPush)
    (hsn : seg.sn = s.client.sndUna) :
    s.Enabled (.serverRecv ⟨wires g, s.clientSeq, s.serverSeq⟩) ∧
      (s.serverRecv ⟨wires g, s.clientSeq, s.serverSeq⟩).server.acklist ≠ [] ∧
      (s.serverRecv ⟨wires g, s.clientSeq, s.serverSeq⟩).server.rcvNxt ≠ s.client.sndUna := by
  obtain ⟨up, down, hrep⟩ := h.represents
  have huna : s.client.sndUna = UInt32.ofNat up.una := hrep.client.send.una
  obtain ⟨hclient, hserver⟩ := hrep.in_time
  obtain ⟨hret, hacks, hnxt, acked, got, -, hup, h', -⟩ := hrep.server.input_push hrep.down_sound
    hrep.up_sound (hrep.toServer _ hf) hg hserver hclient hmem hcmd (hsn.trans huna)
  obtain ⟨more, h''⟩ := h'.echo_end hup
  refine ⟨⟨hf, s.inTime_now _, hret.ge⟩, ?_, ?_⟩
  · exact (echo_acklist (ikcpInput s.server (wires g)).1).trans_ne hacks
  · rw [huna]
    exact (h''.recv.nxt.trans h'.recv.nxt.symm).trans_ne hnxt

/-- The client receives the server's oldest segment. It stays done if it was. -/
theorem client_stores (h : s.Healthy conv clientUser serverUser) {g : List IkcpSeg} {seg : IkcpSeg}
    (hf : ⟨wires g, s.clientSeq, s.serverSeq⟩ ∈ s.toClient)
    (hg : ∀ seg ∈ g, seg.WellFormed conv) (hmem : seg ∈ g) (hcmd : seg.cmd = ikcpCmdPush)
    (hsn : seg.sn = s.server.sndUna) :
    s.Enabled (.clientRecv ⟨wires g, s.clientSeq, s.serverSeq⟩) ∧
      (s.clientRecv ⟨wires g, s.clientSeq, s.serverSeq⟩).client.acklist ≠ [] ∧
      (s.clientRecv ⟨wires g, s.clientSeq, s.serverSeq⟩).client.rcvNxt ≠ s.server.sndUna ∧
      (s.clientRecv ⟨wires g, s.clientSeq, s.serverSeq⟩).client.unfinished
        ≤ s.client.unfinished := by
  obtain ⟨up, down, hrep⟩ := h.represents
  have huna : s.server.sndUna = UInt32.ofNat down.una := hrep.server.send.una
  obtain ⟨hclient, hserver⟩ := hrep.in_time
  obtain ⟨hret, hacks, hnxt, acked, got, hup, hdown, h', hmono⟩ := hrep.client.input_push
    hrep.up_sound hrep.down_sound (hrep.toClient _ hf) hg hclient hserver hmem hcmd
    (hsn.trans huna)
  obtain ⟨more, h''⟩ := h'.drain_end hdown
  refine ⟨⟨hf, s.inTime_now _, hret.ge⟩, ?_, ?_, ?_⟩
  · exact (drain_acklist (ikcpInput s.client (wires g)).1).trans_ne hacks
  · rw [huna]
    exact (h''.recv.nxt.trans h'.recv.nxt.symm).trans_ne hnxt
  · have hqueue : (drain (ikcpInput s.client (wires g)).1).1.sndQueue.length
        = s.client.sndQueue.length := length_sndQueue_of_queue
      ((congrArg SendSide.queue (drain_sendSide _)).trans
        (SendShrinks.ikcpInput s.client (wires g)).queue)
    change (drain (ikcpInput s.client (wires g)).1).1.unfinished ≤ _
    rw [h''.unfinished_eq hup, hrep.client.unfinished_eq hrep.up_sound, hqueue]
    exact Nat.add_le_add_right (Nat.sub_le_sub_left hmono _) _

/-- The server ticks, and reports the number it waits for. -/
theorem server_reports (h : s.Healthy conv clientUser serverUser) (hacks : s.server.acklist ≠ []) :
    ∃ current g seg, ⟨wires g, s.clientSeq, (s.serverTick current).serverSeq⟩
        ∈ (s.serverTick current).toClient ∧ (∀ seg ∈ g, seg.WellFormed conv) ∧ seg ∈ g ∧
      seg.una = (s.serverTick current).server.rcvNxt ∧
      (s.serverTick current).server.rcvNxt = s.server.rcvNxt := by
  obtain ⟨up, down, hrep⟩ := h.represents
  obtain ⟨current, hdue, hne⟩ := exists_ack hacks
  obtain ⟨seg, hseg⟩ := List.exists_mem_of_ne_nil _ hne
  obtain ⟨g, hg, hmem, hread⟩ := hrep.server.framed.exists_datagram hdue hseg
  obtain ⟨-, -, hnxt⟩ := hrep.server.unfinished_update hrep.down_sound hrep.up_sound current
  exact ⟨current, g, seg, List.mem_append_right _ (List.mem_map.mpr ⟨_, hg, rfl⟩),
    hread.wellFormed, hmem, (hread.una seg hmem).trans hnxt.symm, hnxt⟩

theorem client_reports (h : s.Healthy conv clientUser serverUser) (hacks : s.client.acklist ≠ []) :
    ∃ current g seg, ⟨wires g, (s.clientTick current).clientSeq, s.serverSeq⟩
        ∈ (s.clientTick current).toServer ∧ (∀ seg ∈ g, seg.WellFormed conv) ∧ seg ∈ g ∧
      seg.una = (s.clientTick current).client.rcvNxt ∧
      (s.clientTick current).client.rcvNxt = s.client.rcvNxt ∧
      (s.clientTick current).client.unfinished = s.client.unfinished := by
  obtain ⟨up, down, hrep⟩ := h.represents
  obtain ⟨current, hdue, hne⟩ := exists_ack hacks
  obtain ⟨seg, hseg⟩ := List.exists_mem_of_ne_nil _ hne
  obtain ⟨g, hg, hmem, hread⟩ := hrep.client.framed.exists_datagram hdue hseg
  obtain ⟨hkept, -, hnxt⟩ := hrep.client.unfinished_update hrep.up_sound hrep.down_sound current
  exact ⟨current, g, seg, List.mem_append_right _ (List.mem_map.mpr ⟨_, hg, rfl⟩),
    hread.wellFormed, hmem, (hread.una seg hmem).trans hnxt.symm, hnxt, hkept⟩

/-- The client receives a report of more than it knew. -/
theorem client_informed (h : s.Healthy conv clientUser serverUser) {g : List IkcpSeg}
    {seg : IkcpSeg} (hf : ⟨wires g, s.clientSeq, s.serverSeq⟩ ∈ s.toClient)
    (hg : ∀ seg ∈ g, seg.WellFormed conv) (hmem : seg ∈ g) (huna : seg.una = s.server.rcvNxt)
    (hmore : s.server.rcvNxt ≠ s.client.sndUna) :
    s.Enabled (.clientRecv ⟨wires g, s.clientSeq, s.serverSeq⟩) ∧
      (s.clientRecv ⟨wires g, s.clientSeq, s.serverSeq⟩).client.unfinished
        < s.client.unfinished := by
  obtain ⟨up, down, hrep⟩ := h.represents
  obtain ⟨hclient, hserver⟩ := hrep.in_time
  have hchain := hrep.up_sound.inv.chain
  have hnxt : s.server.rcvNxt = UInt32.ofNat up.nxt := hrep.server.recv.nxt
  have hstart : s.client.sndUna = UInt32.ofNat up.una := hrep.client.send.una
  have hlt : up.una < up.nxt := by
    refine lt_of_le_of_ne (hchain.1.trans hchain.2.1) fun heq ↦ hmore ?_
    rw [hnxt, hstart, heq]
  obtain ⟨hret, acked, got, hup, hdown, h', hle⟩ := hrep.client.input_report hrep.up_sound
    hrep.down_sound (hrep.toClient _ hf) hg hclient hserver hmem (huna.trans hnxt)
    hchain.2.2.1 (hchain.2.2.2.trans (Nat.add_le_add_right hlt.le _))
  obtain ⟨more, h''⟩ := h'.drain_end hdown
  have hqueue : (drain (ikcpInput s.client (wires g)).1).1.sndQueue.length
      = s.client.sndQueue.length := length_sndQueue_of_queue
    ((congrArg SendSide.queue (drain_sendSide _)).trans
      (SendShrinks.ikcpInput s.client (wires g)).queue)
  refine ⟨⟨hf, s.inTime_now _, hret.ge⟩, ?_⟩
  change (drain (ikcpInput s.client (wires g)).1).1.unfinished < _
  rw [h''.unfinished_eq hup, hrep.client.unfinished_eq hrep.up_sound, hqueue]
  dsimp only
  omega

/-- The server receives a report of more than it knew, from a client that is done: there is nothing
to echo. -/
theorem server_informed (h : s.Healthy conv clientUser serverUser) {g : List IkcpSeg}
    {seg : IkcpSeg} (hf : ⟨wires g, s.clientSeq, s.serverSeq⟩ ∈ s.toServer)
    (hg : ∀ seg ∈ g, seg.WellFormed conv) (hmem : seg ∈ g) (huna : seg.una = s.client.rcvNxt)
    (hmore : s.client.rcvNxt ≠ s.server.sndUna) (hdone : s.client.unfinished = 0) :
    s.Enabled (.serverRecv ⟨wires g, s.clientSeq, s.serverSeq⟩) ∧
      (s.serverRecv ⟨wires g, s.clientSeq, s.serverSeq⟩).server.unfinished
        < s.server.unfinished := by
  obtain ⟨up, down, hrep⟩ := h.represents
  obtain ⟨hclient, hserver⟩ := hrep.in_time
  have hchain := hrep.down_sound.inv.chain
  have hnxt : s.client.rcvNxt = UInt32.ofNat down.nxt := hrep.client.recv.nxt
  have hstart : s.server.sndUna = UInt32.ofNat down.una := hrep.server.send.una
  have hlt : down.una < down.nxt := by
    refine lt_of_le_of_ne (hchain.1.trans hchain.2.1) fun heq ↦ hmore ?_
    rw [hnxt, hstart, heq]
  obtain ⟨hret, acked, got, hdown, hup, h', hle⟩ := hrep.server.input_report hrep.down_sound
    hrep.up_sound (hrep.toServer _ hf) hg hserver hclient hmem (huna.trans hnxt)
    hchain.2.2.1 (hchain.2.2.2.trans (Nat.add_le_add_right hlt.le _))
  have hempty : (ikcpInput s.server (wires g)).1.rcvQueue = [] := by
    have hroom : up.una + (ikcpInput s.server (wires g)).1.rcvQueue.length ≤ _ := h'.recv.room
    have hnxt' := hup.inv.nxt_le_length
    rw [hrep.client.unfinished_eq hrep.up_sound] at hdone
    refine List.length_eq_zero_iff.mp ?_
    dsimp only at hnxt'
    omega
  have hqueue := length_sndQueue_of_queue (SendShrinks.ikcpInput s.server (wires g)).queue
  have hserver' : (s.serverRecv ⟨wires g, s.clientSeq, s.serverSeq⟩).server
      = (ikcpInput s.server (wires g)).1 := congrArg Prod.fst (echo_of_empty hempty)
  refine ⟨⟨hf, s.inTime_now _, hret.ge⟩, ?_⟩
  rw [hserver', h'.unfinished_eq hdown, hrep.server.unfinished_eq hrep.down_sound, hqueue]
  dsimp only
  omega

/-! ### The two rounds

A round brings the oldest segment of one end over, and then the report of it back. -/

theorem client_delivers (h : s.Healthy conv clientUser serverUser)
    (hne : s.client.unfinished ≠ 0) :
    ∃ s', Onward conv clientUser serverUser s s' ∧ s'.Healthy conv clientUser serverUser ∧
      s'.server.acklist ≠ [] ∧ s'.server.rcvNxt ≠ s'.client.sndUna ∧
      s'.client.unfinished = s.client.unfinished ∧ s'.clientAccepted = s.clientAccepted := by
  obtain ⟨t, g, seg, hf, hg, hmem, hcmd, hsn, hkept⟩ := h.client_pushes hne
  have h' := h.clientTick t
  obtain ⟨hen, hacks, hmore⟩ := h'.server_stores hf hg hmem hcmd hsn
  have hrun : Onward conv clientUser serverUser s (s.clientTick t) :=
    Onward.step ⟨0, .zero⟩ (e := .clientTick t) trivial fun _ ↦ by simp
  exact ⟨_, hrun.step hen fun _ ↦ by simp, h'.serverRecv hen.1 hen.2.1, hacks, hmore, hkept, rfl⟩

theorem server_delivers (h : s.Healthy conv clientUser serverUser)
    (hdone : s.client.unfinished = 0) (hne : s.server.unfinished ≠ 0) :
    ∃ s', Onward conv clientUser serverUser s s' ∧ s'.Healthy conv clientUser serverUser ∧
      s'.client.acklist ≠ [] ∧ s'.client.rcvNxt ≠ s'.server.sndUna ∧
      s'.client.unfinished = 0 ∧ s'.server.unfinished = s.server.unfinished ∧
      s'.clientAccepted = s.clientAccepted := by
  obtain ⟨t, g, seg, hf, hg, hmem, hcmd, hsn, hkept⟩ := h.server_pushes hne
  have h' := h.serverTick t
  have hdone' : (s.serverTick t).client.unfinished = 0 := hdone
  obtain ⟨hen, hacks, hmore, hle⟩ := h'.client_stores hf hg hmem hcmd hsn
  have hrun : Onward conv clientUser serverUser s (s.serverTick t) :=
    Onward.step ⟨0, .zero⟩ (e := .serverTick t) trivial fun _ ↦ by simp
  exact ⟨_, hrun.step hen fun _ ↦ by simp, h'.clientRecv hen.1 hen.2.1, hacks, hmore,
    Nat.eq_zero_of_le_zero (hle.trans_eq hdone'), hkept, rfl⟩

theorem client_learns (h : s.Healthy conv clientUser serverUser) (hacks : s.server.acklist ≠ [])
    (hmore : s.server.rcvNxt ≠ s.client.sndUna) :
    ∃ s', Onward conv clientUser serverUser s s' ∧ s'.Healthy conv clientUser serverUser ∧
      s'.client.unfinished < s.client.unfinished ∧ s'.clientAccepted = s.clientAccepted := by
  obtain ⟨t, g, seg, hf, hg, hmem, huna, hnxt⟩ := h.server_reports hacks
  have h' := h.serverTick t
  obtain ⟨hen, hlt⟩ := h'.client_informed hf hg hmem huna (hnxt.trans_ne hmore)
  have hrun : Onward conv clientUser serverUser s (s.serverTick t) :=
    Onward.step ⟨0, .zero⟩ (e := .serverTick t) trivial fun _ ↦ by simp
  exact ⟨_, hrun.step hen fun _ ↦ by simp, h'.clientRecv hen.1 hen.2.1, hlt, rfl⟩

theorem server_learns (h : s.Healthy conv clientUser serverUser) (hacks : s.client.acklist ≠ [])
    (hmore : s.client.rcvNxt ≠ s.server.sndUna) (hdone : s.client.unfinished = 0) :
    ∃ s', Onward conv clientUser serverUser s s' ∧ s'.Healthy conv clientUser serverUser ∧
      s'.client.unfinished = 0 ∧ s'.server.unfinished < s.server.unfinished ∧
      s'.clientAccepted = s.clientAccepted := by
  obtain ⟨t, g, seg, hf, hg, hmem, huna, hnxt, hsame⟩ := h.client_reports hacks
  have h' := h.clientTick t
  have hdone' := hsame.trans hdone
  obtain ⟨hen, hlt⟩ := h'.server_informed hf hg hmem huna (hnxt.trans_ne hmore) hdone'
  have hrun : Onward conv clientUser serverUser s (s.clientTick t) :=
    Onward.step ⟨0, .zero⟩ (e := .clientTick t) trivial fun _ ↦ by simp
  exact ⟨_, hrun.step hen fun _ ↦ by simp, h'.serverRecv hen.1 hen.2.1, hdone', hlt, rfl⟩

/-- **A round of the client.** -/
theorem client_round (h : s.Healthy conv clientUser serverUser) (hne : s.client.unfinished ≠ 0) :
    ∃ s', Onward conv clientUser serverUser s s' ∧ s'.Healthy conv clientUser serverUser ∧
      s'.client.unfinished < s.client.unfinished ∧ s'.clientAccepted = s.clientAccepted := by
  obtain ⟨s₁, hrun₁, h₁, hacks, hmore, hkept, haccepted₁⟩ := h.client_delivers hne
  obtain ⟨s₂, hrun₂, h₂, hlt, haccepted₂⟩ := h₁.client_learns hacks hmore
  exact ⟨s₂, hrun₁.trans hrun₂, h₂, hlt.trans_eq hkept, haccepted₂.trans haccepted₁⟩

/-- **A round of the server**, when the client is done. -/
theorem server_round (h : s.Healthy conv clientUser serverUser) (hdone : s.client.unfinished = 0)
    (hne : s.server.unfinished ≠ 0) :
    ∃ s', Onward conv clientUser serverUser s s' ∧ s'.Healthy conv clientUser serverUser ∧
      s'.client.unfinished = 0 ∧ s'.server.unfinished < s.server.unfinished ∧
      s'.clientAccepted = s.clientAccepted := by
  obtain ⟨s₁, hrun₁, h₁, hacks, hmore, hdone₁, hkept, haccepted₁⟩ := h.server_delivers hdone hne
  obtain ⟨s₂, hrun₂, h₂, hdone₂, hlt, haccepted₂⟩ := h₁.server_learns hacks hmore hdone₁
  exact ⟨s₂, hrun₁.trans hrun₂, h₂, hdone₂, hlt.trans_eq hkept, haccepted₂.trans haccepted₁⟩

/-! ### The end -/

theorem client_completes (h : s.Healthy conv clientUser serverUser) :
    ∃ s', Onward conv clientUser serverUser s s' ∧ s'.Healthy conv clientUser serverUser ∧
      s'.client.unfinished = 0 ∧ s'.clientAccepted = s.clientAccepted := by
  induction hrank : s.client.unfinished using Nat.strong_induction_on generalizing s with
  | _ n ih =>
    by_cases hdone : s.client.unfinished = 0
    · exact ⟨s, ⟨0, .zero⟩, h, hdone, rfl⟩
    · obtain ⟨s', hrun, h', hlt, haccepted⟩ := h.client_round hdone
      obtain ⟨s'', hrun', h'', hdone', haccepted'⟩ := ih _ (hrank ▸ hlt) h' rfl
      exact ⟨s'', hrun.trans hrun', h'', hdone', haccepted'.trans haccepted⟩

theorem server_completes (h : s.Healthy conv clientUser serverUser)
    (hclient : s.client.unfinished = 0) :
    ∃ s', Onward conv clientUser serverUser s s' ∧ s'.Healthy conv clientUser serverUser ∧
      s'.client.unfinished = 0 ∧ s'.server.unfinished = 0 ∧
      s'.clientAccepted = s.clientAccepted := by
  induction hrank : s.server.unfinished using Nat.strong_induction_on generalizing s with
  | _ n ih =>
    by_cases hdone : s.server.unfinished = 0
    · exact ⟨s, ⟨0, .zero⟩, h, hclient, hdone, rfl⟩
    · obtain ⟨s', hrun, h', hclient', hlt, haccepted⟩ := h.server_round hclient hdone
      obtain ⟨s'', hrun', h'', hclient'', hdone', haccepted'⟩ :=
        ih _ (hrank ▸ hlt) h' hclient' rfl
      exact ⟨s'', hrun.trans hrun', h'', hclient'', hdone', haccepted'.trans haccepted⟩

/-- With nothing outstanding at either end, everything written has been echoed. -/
theorem echoed_of_completed (h : s.Healthy conv clientUser serverUser)
    (hclient : s.client.unfinished = 0) (hserver : s.server.unfinished = 0) :
    s.serverTaken = s.clientAccepted ∧ s.clientTaken = s.clientAccepted := by
  obtain ⟨up, down, hrep⟩ := h.represents
  have hall : ∀ {user : Ptr} {kcp : Ikcpcb} {out inn : Stream} {written taken taken' : List UInt8}
      {kcp' : Ikcpcb}, Endpoint conv user kcp out inn written taken → out.Sound →
      kcp.unfinished = 0 → kcp'.recvSide.Represents out taken' → kcp'.rcvQueue = [] →
      taken' = written := by
    intro user kcp out inn written taken taken' kcp' hend hout hzero hrecv hidle
    rw [hend.unfinished_eq hout] at hzero
    have hchain := hout.inv.chain
    have hqueue : kcp.sendSide.queue = [] := by
      rw [Ikcpcb.sendSide, List.length_eq_zero_iff.mp (Nat.eq_zero_of_add_eq_zero hzero).2]
      rfl
    have hfull : out.nxt = out.sent.length := by omega
    have hbytes : taken' ++ kcp'.rcvQueue.flatMap IkcpSeg.data = (out.sent.take out.nxt).flatten :=
      hrecv.bytes
    rw [hidle, List.flatMap_nil, List.append_nil, hfull, List.take_length] at hbytes
    rw [hbytes, hend.send.bytes, hqueue, queueBytes, List.flatMap_nil, List.append_nil]
  have htaken := hall hrep.client hrep.up_sound hclient hrep.server.recv hrep.server_idle
  refine ⟨htaken, ?_⟩
  rw [← htaken, ← hrep.echoed]
  exact hall hrep.server hrep.down_sound hserver hrep.client.recv hrep.client_idle

end Healthy

/-- **A session never gets stuck.** From every state a session can reach, and with any part of what
is in flight lost, there is a way on without any further call of `ikcp_send` to a state with nothing
outstanding at either end, where the server has taken out, and the client has got back, exactly the
bytes that `ikcp_send` had taken. As in every run of `pair`, each datagram has been delivered before
either end has given out `2 ^ 29` numbers since it left. -/
theorem session_recovers (hs : (pair conv clientUser serverUser).Reachable s)
    {toServer toClient : List Flight} (hserver : toServer ⊆ s.toServer)
    (hclient : toClient ⊆ s.toClient) :
    ∃ s', Onward conv clientUser serverUser { s with toServer := toServer, toClient := toClient } s'
      ∧ s'.client.unfinished = 0 ∧ s'.server.unfinished = 0 ∧
      s'.serverTaken = s.clientAccepted ∧ s'.clientTaken = s.clientAccepted := by
  have h := ((Healthy.inductive_pair conv clientUser serverUser).reachable hs).lose hserver hclient
  obtain ⟨s₁, hrun₁, h₁, hdone₁, haccepted₁⟩ := h.client_completes
  obtain ⟨s₂, hrun₂, h₂, hdone₂, hdone₂', haccepted₂⟩ := h₁.server_completes hdone₁
  obtain ⟨htaken, hback⟩ := h₂.echoed_of_completed hdone₂ hdone₂'
  exact ⟨s₂, hrun₁.trans hrun₂, hdone₂, hdone₂', htaken.trans (haccepted₂.trans haccepted₁),
    hback.trans (haccepted₂.trans haccepted₁)⟩

/-- The byte that was sent is echoed even if the datagram that carried it is lost. -/
theorem session_recovers_byteSent : ∃ s',
    Onward 1001 0 1 { byteSent with toServer := [], toClient := [] } s' ∧
      s'.clientTaken = byteSent.clientAccepted := by
  have hsend : (pair 1001 0 1).Reachable ((start 1001 0 1).send [7]) :=
    @Lts.Reachable.step _ _ _ _ _ (.send [7]) (.init rfl) ⟨trivial, rfl⟩
  have hreach : (pair 1001 0 1).Reachable byteSent :=
    @Lts.Reachable.step _ _ _ _ _ (.clientTick 0) hsend ⟨trivial, rfl⟩
  obtain ⟨s', hrun, -, -, -, hback⟩ :=
    session_recovers hreach (List.nil_subset byteSent.toServer) (List.nil_subset byteSent.toClient)
  exact ⟨s', hrun, hback⟩

end Pair

end KcpEcho
