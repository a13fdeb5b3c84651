import KcpEcho.Ikcp.Emission
import KcpEcho.Ikcp.Schedule
import KcpEcho.Session.Receiver

/-!
# What the flushes of a session put on the wire

The exact emission of `ikcp_flush`, for a control block as the two programs drive it, and what
follows for acknowledgements. Every data segment that arrives inside the receive window is entered
into the ack list and leaves as one acknowledgement, whatever else the datagrams that carried it
hold: the acknowledgements on the wire are the arrivals, each once and in order
(`acks_are_arrivals`). A flush leaves none pending. The ack list stands for the array of the source
while fewer than `2 ^ 30` are pending.
-/

namespace KcpEcho

open Packing

/-! ## The packing -/

section Flush

variable {conv : UInt32} {user : Ptr} {kcp : Ikcpcb}

theorem mem_commandSegs {ask cmd : UInt32} {seg s : IkcpSeg} (h : s ∈ commandSegs kcp ask cmd seg) :
    s = { seg with cmd := cmd } := by
  rw [commandSegs] at h
  split_ifs at h
  · exact List.mem_singleton.mp h
  · exact absurd h List.not_mem_nil

theorem sentSeg_body {wnd : UInt32} {seg s : IkcpSeg} (h : sentSeg kcp wnd seg = some s) :
    s.body = seg.body := by
  rw [sentSeg] at h
  dsimp only at h
  split_ifs at h
  obtain rfl := Option.some.inj h
  exact sendDecision_body kcp _ _ seg

theorem Framed.flushSegs (h : Framed conv user kcp) :
    ∀ seg ∈ flushSegs kcp, seg.WellFormed conv ∧ seg.need ≤ 1400 := by
  have hempty : ∀ seg : IkcpSeg, seg.conv = conv → seg.data = [] →
      (seg.cmd = ikcpCmdPush ∨ seg.cmd = ikcpCmdAck ∨ seg.cmd = ikcpCmdWask ∨
        seg.cmd = ikcpCmdWins) → seg.WellFormed conv ∧ seg.need ≤ 1400 := by
    intro seg hconv hdata hcmd
    rw [IkcpSeg.need, IkcpSeg.len, hdata]
    exact ⟨⟨hconv, hcmd, by rw [hdata]; decide⟩, by decide⟩
  intro seg hseg
  rcases List.mem_append.mp hseg with hack | hseg
  · obtain ⟨a, -, rfl⟩ := List.mem_map.mp hack
    exact hempty _ h.conv_eq rfl (.inr (.inl rfl))
  rcases List.mem_append.mp hseg with hprobe | hdata
  · rcases List.mem_append.mp hprobe with hask | htell
    · rw [mem_commandSegs hask]
      exact hempty _ h.conv_eq rfl (.inr (.inr (.inl rfl)))
    · rw [mem_commandSegs htell]
      exact hempty _ h.conv_eq rfl (.inr (.inr (.inr rfl)))
  · obtain ⟨s, hs, hsent⟩ := List.mem_filterMap.mp hdata
    have hbody := sentSeg_body hsent
    obtain ⟨hconv, hcmd, hlen⟩ := h.flushMoved.buf s.body (List.mem_map_of_mem hs)
    rw [← hbody] at hconv hcmd hlen
    have hlen : seg.data.length ≤ sessionMss := hlen
    rw [sessionMss] at hlen
    rw [IkcpSeg.need, ikcpOverhead, IkcpSeg.len]
    exact ⟨⟨hconv, .inl hcmd, by omega⟩, by omega⟩

/-- Every segment of a flush reports the number waited for, and the room left. -/
theorem flushSegs_reports (kcp : Ikcpcb) :
    ∀ seg ∈ KcpEcho.flushSegs kcp, seg.una = kcp.rcvNxt ∧ seg.wnd = ikcpWndUnused kcp := by
  intro seg hseg
  rcases List.mem_append.mp hseg with hack | hseg
  · obtain ⟨a, -, rfl⟩ := List.mem_map.mp hack
    exact ⟨rfl, rfl⟩
  rcases List.mem_append.mp hseg with hprobe | hdata
  · rcases List.mem_append.mp hprobe with hask | htell
    · rw [mem_commandSegs hask]
      exact ⟨rfl, rfl⟩
    · rw [mem_commandSegs htell]
      exact ⟨rfl, rfl⟩
  · obtain ⟨s, -, hsent⟩ := List.mem_filterMap.mp hdata
    have hnxt : (KcpEcho.flushMoved kcp).rcvNxt = kcp.rcvNxt :=
      congrArg RecvSide.nxt (flushMoved_frame kcp).2
    rw [sentSeg] at hsent
    dsimp only at hsent
    split_ifs at hsent
    obtain rfl := Option.some.inj hsent
    exact ⟨hnxt, rfl⟩

/-- **One flush of a session.** The datagrams are the segments of the flush, cut in order into
nonempty datagrams of at most 1400 bytes, and no way of cutting them needs fewer. -/
theorem flush_packs_optimally (h : (session conv user).Reachable kcp) {current : UInt32}
    (hdue : flushDue kcp current = true) :
    ∃ groups : List (List IkcpSeg),
      (ikcpUpdate kcp current).2 = groups.map wires ∧
      groups.flatten = KcpEcho.flushSegs (scheduled kcp current) ∧
      (∀ g ∈ groups, g ≠ [] ∧ (wires g).length ≤ 1400) ∧
      ∀ other : List (List IkcpSeg), other.flatten = KcpEcho.flushSegs (scheduled kcp current) →
        (∀ g ∈ other, (wires g).length ≤ 1400) → groups.length ≤ other.length := by
  have hf := (Framed.inductive_session conv user).reachable h
  obtain ⟨hconfig, hsend, -, hupd, -⟩ := scheduled_sides kcp current
  have hs : Framed conv user (scheduled kcp current) := hf.of_frame hconfig hsend
  have hflush := ikcpFlush_snd_eq_pack hupd
  rw [hs.mtu_eq] at hflush
  refine ⟨_, (congrArg Prod.snd (ikcpUpdate_of_due hdue)).trans hflush, flatten_pack _, ?_, ?_⟩
  · intro g hg
    rw [length_wires]
    exact ⟨ne_nil_of_mem_pack hg, total_le_of_mem_pack (fun seg hseg ↦ (hs.flushSegs seg hseg).2) hg⟩
  · intro other hother hfit
    rw [← hother]
    exact length_pack_le other fun g hg ↦ length_wires g ▸ hfit g hg

/-- One byte for a session with number 7. -/
def pushSeg (sn : UInt32) : IkcpSeg :=
  { conv := 7, cmd := ikcpCmdPush, wnd := 128, sn := sn, data := [1] }

/-- Two arrivals to acknowledge, and a message that leaves 6 bytes of a datagram. -/
def ackAndSend : Ikcpcb :=
  ((configuredKcp 7 0).after (.input (wires [pushSeg 0, pushSeg 1]))).after
    (.send (List.replicate 1370 0))

/-- The three segments of the flush need two datagrams. -/
theorem flush_packs_optimally_two : (flushSegs (scheduled ackAndSend 0)).length = 3 ∧
    ∃ groups : List (List IkcpSeg), (ikcpUpdate ackAndSend 0).2 = groups.map wires ∧
      groups.length = 2 := by
  have hreach : (session 7 0).Reachable ackAndSend := .step (.step (.init rfl) rfl) rfl
  obtain ⟨groups, hout, hflat, hgroups, hbest⟩ :=
    @flush_packs_optimally 7 0 ackAndSend hreach 0 (by decide +kernel)
  refine ⟨by decide +kernel, groups, hout, le_antisymm ?_ ?_⟩
  · refine hbest [(flushSegs (scheduled ackAndSend 0)).take 2,
      (flushSegs (scheduled ackAndSend 0)).drop 2] ?_ ?_
    · rw [List.flatten_cons, List.flatten_singleton, List.take_append_drop]
    · exact List.forall_mem_cons.mpr
        ⟨by decide +kernel, List.forall_mem_singleton.mpr (by decide +kernel)⟩
  · -- one datagram is too short for all three
    have hlong : 1400 < (wires (flushSegs (scheduled ackAndSend 0))).length := by decide +kernel
    rw [← hflat] at hlong
    match groups, hgroups, hlong with
    | [], _, hlong => exact absurd hlong (by decide)
    | [g], hgroups, hlong =>
      rw [List.flatten_singleton] at hlong
      exact absurd hlong (Nat.not_lt.mpr (hgroups g List.mem_cons_self).2)
    | _ :: _ :: _, _, _ => exact Nat.le_add_left 2 _

end Flush

/-! ## Reading a datagram -/

/-- What of a segment is on the wire. -/
def IkcpSeg.shown (seg : IkcpSeg) : IkcpHeader × List UInt8 := (seg.header, seg.data)

/-- **A datagram can be read in one way only.** -/
theorem shown_eq_of_wires_eq {conv conv' : UInt32} {segs segs' : List IkcpSeg}
    (hsegs : ∀ seg ∈ segs, seg.WellFormed conv) (hsegs' : ∀ seg ∈ segs', seg.WellFormed conv')
    (h : wires segs = wires segs') : segs.map IkcpSeg.shown = segs'.map IkcpSeg.shown := by
  induction segs generalizing segs' with
  | nil =>
    have hnil : (wires segs').length = 0 := by
      rw [← h]
      rfl
    rw [wires_eq_nil.mp hnil]
  | cons seg segs ih =>
    cases segs' with
    | nil =>
      have hnil : (wires (seg :: segs)).length = 0 := by
        rw [h]
        rfl
      exact absurd (wires_eq_nil.mp hnil) (List.cons_ne_nil _ _)
    | cons seg' segs' =>
      have hdecode := decodeHeader_wires seg segs []
      rw [h, decodeHeader_wires seg' segs' []] at hdecode
      obtain ⟨hheader, hrest⟩ := Prod.mk.inj hdecode
      rw [List.append_nil, List.append_nil] at hrest
      have hlen : seg'.data.length = seg.data.length := by
        rw [← (hsegs seg List.mem_cons_self).toNat_len,
          ← (hsegs' seg' List.mem_cons_self).toNat_len, hheader]
      obtain ⟨hdata, htail⟩ := List.append_inj hrest hlen
      rw [List.map_cons, List.map_cons,
        ih (fun s hs ↦ hsegs s (List.mem_cons_of_mem _ hs))
          (fun s hs ↦ hsegs' s (List.mem_cons_of_mem _ hs)) htail.symm,
        IkcpSeg.shown, IkcpSeg.shown, hheader, hdata]

/-! ## Acknowledgements on the wire -/

/-- The acknowledgements in a datagram, read off its bytes. The first argument bounds the number of
segments looked at. -/
def wireAcks : ℕ → List UInt8 → List (UInt32 × UInt32)
  | 0, _ => []
  | fuel + 1, data =>
    if data.length < ikcpOverhead then []
    else
      let (h, rest) := decodeHeader data
      (if h.cmd.toUInt32 = ikcpCmdAck then [(h.sn, h.ts)] else []) ++
        wireAcks fuel (rest.drop h.len.toNat)

/-- The acknowledgements in a datagram. -/
def datagramAcks (data : List UInt8) : List (UInt32 × UInt32) := wireAcks data.length data

/-- The acknowledgement a segment is, if it is one. -/
def IkcpSeg.acks (seg : IkcpSeg) : List (UInt32 × UInt32) :=
  if seg.cmd = ikcpCmdAck then [(seg.sn, seg.ts)] else []

theorem wireAcks_wires {conv : UInt32} (segs : List IkcpSeg)
    (hsegs : ∀ seg ∈ segs, seg.WellFormed conv) {fuel : ℕ} (hfuel : (wires segs).length ≤ fuel) :
    wireAcks fuel (wires segs) = segs.flatMap IkcpSeg.acks := by
  induction segs generalizing fuel with
  | nil =>
    cases fuel with
    | zero => rfl
    | succ fuel => exact if_pos (by decide)
  | cons seg segs ih =>
    have hseg := hsegs seg List.mem_cons_self
    have hlen : (wires (seg :: segs)).length
        = ikcpOverhead + seg.data.length + (wires segs).length := by
      rw [wires_cons, List.length_append, IkcpSeg.length_wire]
    obtain ⟨fuel, rfl⟩ : ∃ n, fuel = n + 1 :=
      ⟨fuel - 1, by rw [hlen, ikcpOverhead] at hfuel; omega⟩
    have hdecode := decodeHeader_wires seg segs []
    rw [List.append_nil, List.append_nil] at hdecode
    rw [wireAcks, if_neg (by omega), hdecode]
    dsimp only
    rw [hseg.header_cmd, hseg.toNat_len, List.drop_left, List.flatMap_cons,
      ih (fun s hs ↦ hsegs s (List.mem_cons_of_mem _ hs))
        (by rw [hlen, ikcpOverhead] at hfuel; omega)]
    rfl

/-- Nothing but the ack list shows as an acknowledgement. -/
theorem flatMap_acks_flushSegs {conv : UInt32} {user : Ptr} {kcp : Ikcpcb}
    (h : Framed conv user kcp) : (flushSegs kcp).flatMap IkcpSeg.acks = kcp.acklist := by
  have hother : ∀ segs : List IkcpSeg, (∀ s ∈ segs, s.cmd ≠ ikcpCmdAck) →
      segs.flatMap IkcpSeg.acks = [] := by
    intro segs hsegs
    exact List.flatMap_eq_nil_iff.mpr fun s hs ↦ if_neg (hsegs s hs)
  have hacks : (ackSegs kcp).flatMap IkcpSeg.acks = kcp.acklist := by
    have hone : (fun a : UInt32 × UInt32 ↦
        IkcpSeg.acks { flushTemplate kcp with sn := a.1, ts := a.2 }) = fun a ↦ [a] := rfl
    rw [ackSegs, List.flatMap_map, hone, List.flatMap_singleton']
  have hprobe : (probeSegs kcp).flatMap IkcpSeg.acks = [] := by
    refine hother _ fun s hs ↦ ?_
    rcases List.mem_append.mp hs with hask | htell
    · rw [mem_commandSegs hask]
      exact (by decide : ikcpCmdWask ≠ ikcpCmdAck)
    · rw [mem_commandSegs htell]
      exact (by decide : ikcpCmdWins ≠ ikcpCmdAck)
  have hdata : (dataSegs kcp).flatMap IkcpSeg.acks = [] := by
    refine hother _ fun s hs ↦ ?_
    obtain ⟨s', hs', hsent⟩ := List.mem_filterMap.mp hs
    have hcmd : s.body.cmd = ikcpCmdPush := by
      rw [sentSeg_body hsent]
      exact (h.flushMoved.buf s'.body (List.mem_map_of_mem hs')).2.1
    exact (hcmd.trans_ne (by decide) : s.cmd ≠ ikcpCmdAck)
  rw [flushSegs, List.flatMap_append, List.flatMap_append, hacks, hprobe, hdata, List.append_nil,
    List.append_nil]

theorem Framed.update_acks {conv : UInt32} {user : Ptr} {kcp : Ikcpcb} (h : Framed conv user kcp)
    (current : UInt32) :
    (ikcpUpdate kcp current).2.flatMap datagramAcks =
      if flushDue kcp current then kcp.acklist else [] := by
  by_cases hdue : flushDue kcp current = true
  · obtain ⟨hconfig, hsend, hrecv, hupd, -⟩ := scheduled_sides kcp current
    have hs : Framed conv user (scheduled kcp current) := h.of_frame hconfig hsend
    have hlist : (scheduled kcp current).acklist = kcp.acklist := congrArg RecvSide.acks hrecv
    have hread : ∀ groups : List (List IkcpSeg),
        (∀ seg ∈ groups.flatten, seg.WellFormed conv) →
          (groups.map wires).flatMap datagramAcks = groups.flatten.flatMap IkcpSeg.acks := by
      intro groups hgroups
      induction groups with
      | nil => rfl
      | cons g groups ih =>
        have hg : datagramAcks (wires g) = g.flatMap IkcpSeg.acks :=
          wireAcks_wires g (fun s hs ↦ hgroups s (List.mem_append_left _ hs)) le_rfl
        rw [List.map_cons, List.flatMap_cons, hg, List.flatten_cons, List.flatMap_append,
          ih fun s hs ↦ hgroups s (List.mem_append_right _ hs)]
    rw [if_pos hdue, ikcpUpdate_of_due hdue, ikcpFlush_snd_eq_pack hupd, hread, flatten_pack,
      flatMap_acks_flushSegs hs, hlist]
    rw [flatten_pack]
    exact fun seg hseg ↦ (hs.flushSegs seg hseg).1
  · rw [if_neg hdue, ikcpUpdate_of_not_due (Bool.not_eq_true _ ▸ hdue)]
    rfl

/-! ## Arrivals -/

/-- The arrival a decoded header is, for a control block that has taken the segments before it: the
number and time of a data segment inside the receive window. -/
def pushArrival (kcp : Ikcpcb) (h : IkcpHeader) : List (UInt32 × UInt32) :=
  if h.cmd.toUInt32 = ikcpCmdPush ∧ inWindow kcp h.sn then [(h.sn, h.ts)] else []

/-- The arrivals of a datagram, up to the segment `ikcp_input` gives up at. -/
def arrivalsLoop : ℕ → InputState → List UInt8 → List (UInt32 × UInt32)
  | 0, _, _ => []
  | fuel + 1, st, data =>
    if data.length < ikcpOverhead then []
    else
      let (h, rest) := decodeHeader data
      match headerError st.kcp.conv h rest.length with
      | some _ => []
      | none =>
        pushArrival st.kcp h ++
          arrivalsLoop fuel (inputSeg st h (rest.take h.len.toNat)) (rest.drop h.len.toNat)

/-- The arrivals of a datagram. -/
def arrivals (kcp : Ikcpcb) (data : List UInt8) : List (UInt32 × UInt32) :=
  arrivalsLoop data.length { kcp := kcp } data

section Arrivals

theorem acks_recvSide (kcp : Ikcpcb) : kcp.recvSide.acks = kcp.acklist := rfl

theorem acklist_of_recvSide {kcp kcp' : Ikcpcb} (h : kcp'.recvSide = kcp.recvSide) :
    kcp'.acklist = kcp.acklist := congrArg RecvSide.acks h

theorem ikcpRecv_acklist (kcp : Ikcpcb) (len : ℤ) :
    (ikcpRecv kcp len).1.acklist = kcp.acklist := by
  rw [ikcpRecv]
  dsimp only
  split_ifs <;> first | rfl | exact acklist_moveAvailableLoop _ _

/-- The window a segment is tested against is not moved by its own cumulative acknowledgement. -/
theorem inWindow_inputHead (kcp : Ikcpcb) (h : IkcpHeader) (sn : UInt32) :
    inWindow (inputHead kcp h) sn = inWindow kcp sn := by
  obtain ⟨hconfig, hrecv⟩ := inputHead_frame kcp h
  have hnxt : (inputHead kcp h).rcvNxt = kcp.rcvNxt := congrArg RecvSide.nxt hrecv
  have hwnd : (inputHead kcp h).rcvWnd = kcp.rcvWnd := congrArg IkcpConfig.rcvWnd hconfig
  rw [inWindow, inWindow, hnxt, hwnd]

theorem inputPush_acklist (kcp : Ikcpcb) (h : IkcpHeader) (data : List UInt8) :
    (inputPush kcp h data).acklist =
      kcp.acklist ++ if inWindow kcp h.sn then [(h.sn, h.ts)] else [] := by
  rw [inputPush]
  by_cases hwin : inWindow kcp h.sn = true
  · rw [if_pos hwin, if_pos hwin]
    dsimp only
    split_ifs
    · exact acklist_ikcpParseData _ _
    · rfl
  · rw [if_neg hwin, if_neg hwin, List.append_nil]

theorem inputSeg_acklist (st : InputState) (h : IkcpHeader) (data : List UInt8) :
    (inputSeg st h data).kcp.acklist = st.kcp.acklist ++ pushArrival st.kcp h := by
  have hhead := acklist_of_recvSide (inputHead_frame st.kcp h).2
  have hack : (inputAck { st with kcp := inputHead st.kcp h } h).kcp.acklist = st.kcp.acklist := by
    rw [inputAck_kcp]
    refine (acklist_of_recvSide ?_).trans hhead
    rw [(ikcpShrinkBuf_frame _).2, (ikcpParseAck_frame _ _).2, (inputRtt_sides _ _).2.2]
  rw [inputSeg, pushArrival]
  dsimp only
  by_cases hcmdAck : h.cmd.toUInt32 = ikcpCmdAck
  · have hnot : ¬h.cmd.toUInt32 = ikcpCmdPush := by rw [hcmdAck]; decide
    rw [if_pos hcmdAck, hack, if_neg fun hpush ↦ hnot hpush.1, List.append_nil]
  rw [if_neg hcmdAck]
  by_cases hcmdPush : h.cmd.toUInt32 = ikcpCmdPush
  · rw [if_pos hcmdPush]
    dsimp only
    rw [inputPush_acklist, hhead, inWindow_inputHead]
    simp only [hcmdPush, true_and]
  have hnone : (if h.cmd.toUInt32 = ikcpCmdPush ∧ inWindow st.kcp h.sn then [(h.sn, h.ts)] else [])
      = [] := if_neg fun hpush ↦ hcmdPush hpush.1
  rw [if_neg hcmdPush, hnone, List.append_nil]
  split_ifs <;> exact hhead

theorem inputLoop_acklist (fuel : ℕ) (st : InputState) (data : List UInt8) :
    (inputLoop fuel st data).1.kcp.acklist = st.kcp.acklist ++ arrivalsLoop fuel st data := by
  induction fuel generalizing st data with
  | zero => exact (List.append_nil _).symm
  | succ fuel ih =>
    rw [inputLoop, arrivalsLoop]
    by_cases hlen : data.length < ikcpOverhead
    · rw [if_pos hlen, if_pos hlen, List.append_nil]
    rw [if_neg hlen, if_neg hlen]
    dsimp only
    cases headerError st.kcp.conv (decodeHeader data).1 (decodeHeader data).2.length with
    | some err => exact (List.append_nil _).symm
    | none =>
      dsimp only
      rw [ih, inputSeg_acklist, List.append_assoc]

/-- **`ikcp_input` enters exactly the arrivals**, accepted or not. -/
theorem ikcpInput_acklist (kcp : Ikcpcb) (data : List UInt8) :
    (ikcpInput kcp data).1.acklist = kcp.acklist ++ arrivals kcp data := by
  have hloop := inputLoop_acklist data.length { kcp := kcp } data
  rw [ikcpInput, arrivals]
  by_cases hlen : data.length < ikcpOverhead
  · have hnone : arrivalsLoop data.length { kcp := kcp } data = [] := by
      cases data.length with
      | zero => rfl
      | succ fuel => exact if_pos hlen
    rw [if_pos hlen, hnone, List.append_nil]
  · rw [if_neg hlen]
    dsimp only
    split_ifs
    · exact hloop
    · exact (acklist_of_recvSide (inputFinish_sides _ _).2.2).trans hloop

end Arrivals

/-! ## The ledger -/

/-- A session, the data segments that have arrived inside its window, and the acknowledgements it
has put on the wire. -/
structure AckLedger where
  kcp : Ikcpcb
  arrived : List (UInt32 × UInt32) := []
  acked : List (UInt32 × UInt32) := []

/-- The ledger after a call. -/
def AckLedger.after (s : AckLedger) (usage : Usage) : AckLedger where
  kcp := s.kcp.after usage
  arrived :=
    match usage with
    | .input data => s.arrived ++ arrivals s.kcp data
    | _ => s.arrived
  acked :=
    match usage with
    | .update current => s.acked ++ (ikcpUpdate s.kcp current).2.flatMap datagramAcks
    | _ => s.acked

/-- A session with its ledger. -/
def ledger (conv : UInt32) (user : Ptr) : Lts AckLedger Usage where
  init s := s = { kcp := configuredKcp conv user }
  step s usage s' := s' = s.after usage

/-- The ledger is balanced: what has arrived is what has been acknowledged and what waits. -/
structure AckLedger.Balanced (conv : UInt32) (user : Ptr) (s : AckLedger) : Prop where
  framed : Framed conv user s.kcp
  balance : s.arrived = s.acked ++ s.kcp.acklist

namespace AckLedger.Balanced

variable {conv : UInt32} {user : Ptr} {s : AckLedger}

theorem after (h : s.Balanced conv user) (usage : Usage) : (s.after usage).Balanced conv user := by
  refine ⟨h.framed.after usage, ?_⟩
  cases usage with
  | send buffer =>
    have hsend := acklist_of_recvSide (ikcpSend_frame s.kcp buffer).2
    exact h.balance.trans (congrArg _ hsend.symm)
  | input data =>
    change s.arrived ++ _ = s.acked ++ (ikcpInput s.kcp data).1.acklist
    rw [ikcpInput_acklist, ← List.append_assoc, h.balance]
  | recv len => exact h.balance.trans (congrArg _ (ikcpRecv_acklist s.kcp len).symm)
  | update current =>
    change s.arrived = (s.acked ++ _) ++ (ikcpUpdate s.kcp current).1.acklist
    rw [h.framed.update_acks, h.balance, List.append_assoc]
    obtain ⟨-, -, hrecv, hupd, -⟩ := scheduled_sides s.kcp current
    by_cases hdue : flushDue s.kcp current = true
    · have hempty : (ikcpFlush (scheduled s.kcp current)).1.acklist = [] := by
        rw [← acks_recvSide, (ikcpFlush_sides hupd).2.2]
      rw [if_pos hdue, ikcpUpdate_of_due hdue, hempty, List.append_nil]
    · have hclock := acklist_of_recvSide (updateClock_sides s.kcp current).2.2.1
      rw [if_neg hdue, ikcpUpdate_of_not_due (Bool.not_eq_true _ ▸ hdue), hclock, List.nil_append]

theorem inductive_ledger (conv : UInt32) (user : Ptr) :
    (ledger conv user).Inductive (Balanced conv user) where
  init _ hs := hs ▸ ⟨Framed.init conv user, rfl⟩
  step _ usage _ h hs := hs ▸ h.after usage

end AckLedger.Balanced

/-- **Every arrival is acknowledged once.** Whatever bytes a session is fed, the acknowledgements it
has put on the wire are the data segments that arrived inside its window, each once and in the order
of arrival, but for those still in the ack list; and a flush leaves none there. -/
theorem acks_are_arrivals {conv : UInt32} {user : Ptr} {s : AckLedger}
    (hs : (ledger conv user).Reachable s) :
    s.arrived = s.acked ++ s.kcp.acklist ∧
      ∀ current, flushDue s.kcp current = true →
        (s.after (.update current)).acked = (s.after (.update current)).arrived := by
  have hinv := AckLedger.Balanced.inductive_ledger conv user
  refine ⟨(hinv.reachable hs).balance, ?_⟩
  intro current hdue
  have hacks := (hinv.reachable hs).framed.update_acks current
  rw [if_pos hdue] at hacks
  exact (congrArg (s.acked ++ ·) hacks).trans (hinv.reachable hs).balance.symm

/-- A data segment arrives, and is acknowledged by the next update. -/
theorem acks_are_arrivals_one :
    let data := IkcpSeg.wire { conv := 7, cmd := ikcpCmdPush, ts := 5, data := [1] }
    let s : AckLedger := { kcp := configuredKcp 7 0 }
    ((s.after (.input data)).after (.update 0)).acked = [(0, 5)] := by
  intro data s
  have hreach : (ledger 7 0).Reachable (s.after (.input data)) := .step (.init rfl) rfl
  rw [(acks_are_arrivals hreach).2 0 (by decide +kernel)]
  decide +kernel

end KcpEcho
