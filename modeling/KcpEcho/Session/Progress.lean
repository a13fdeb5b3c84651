import KcpEcho.Base.Ranking
import KcpEcho.Session.Emission
import KcpEcho.Session.Pair

/-!
# A session never gets stuck

Safety says that what arrives is a prefix of what was sent. Here is the other half: from every state
a session can reach, even with every datagram in flight lost, the two programs can still bring the
echo to its end, without the client sending anything more (`session_recovers`). Only the timers have
to fire at suitable times and the datagrams they give rise to have to get through.

The round that makes progress takes four steps. The end with something outstanding ticks when its
oldest segment is due again; the peer receives it, and stores it if it did not have it; the peer
ticks, and its acknowledgement reports everything it has stored so far; that moves the window. The
number of segments not yet acknowledged (`Ikcpcb.unfinished`) has gone down. First this is done with
the client's segments, until all of them have been echoed, and then with the server's.
-/

namespace KcpEcho

open SelectiveRepeat

/-! ## What a datagram teaches -/

/-- An end that has sent `sent` numbers, and whose peer has sent `sent'`, has heard of this header:
it knows what is reported below `una`, it has the number that was pushed, and owes an
acknowledgement for it. -/
structure Learnt (sent sent' : ℕ) (acked got : Set ℕ) (acks : List (UInt32 × UInt32))
    (h : IkcpHeader) : Prop where
  una : ∃ u ≤ sent, h.una = UInt32.ofNat u ∧ sent < u + 2 ^ 30 ∧ ∀ k < u, k ∈ acked
  push : h.cmd.toUInt32 = ikcpCmdPush →
    acks ≠ [] ∧ ∃ k ∈ got, h.sn = UInt32.ofNat k ∧ k < sent' ∧ sent' < k + 2 ^ 30

theorem Learnt.mono {sent sent' : ℕ} {acked got acked' got' : Set ℕ}
    {acks more : List (UInt32 × UInt32)} {h : IkcpHeader} (hl : Learnt sent sent' acked got acks h)
    (hacked : acked ⊆ acked') (hgot : got ⊆ got') :
    Learnt sent sent' acked' got' (acks ++ more) h where
  una := by
    obtain ⟨u, hle, hu, hnear, hbelow⟩ := hl.una
    exact ⟨u, hle, hu, hnear, fun k hk ↦ hacked (hbelow k hk)⟩
  push hcmd := by
    obtain ⟨hacks, k, hk, hrest⟩ := hl.push hcmd
    exact ⟨List.append_ne_nil_of_left_ne_nil hacks _, k, hgot hk, hrest⟩

namespace Endpoint

variable {conv : UInt32} {user : Ptr} {kcp : Ikcpcb} {out inn : Stream}
  {written taken : List UInt8}

theorem inputSeg_learnt {st : InputState} (h : Endpoint conv user st.kcp out inn written taken)
    (hout : out.Sound) (hinn : inn.Sound) {outSeq innSeq : ℕ} {seg : IkcpSeg}
    (hsaid : Says conv inn out innSeq outSeq seg) (houtSeq : out.sent.length < outSeq + 2 ^ 29)
    (hinnSeq : inn.sent.length < innSeq + 2 ^ 29) :
    ∃ acked got : Set ℕ, out.acked ⊆ acked ∧ inn.got ⊆ got ∧
      Stream.Sound { out with acked := acked } ∧ Stream.Sound { inn with got := got } ∧
      Endpoint conv user (KcpEcho.inputSeg st seg.header seg.data).kcp { out with acked := acked }
        { inn with got := got } written taken ∧
      Learnt out.sent.length inn.sent.length acked got
        (KcpEcho.inputSeg st seg.header seg.data).kcp.acklist seg.header := by
  obtain ⟨u, hu, hbelow, hnear⟩ := hsaid.una
  obtain ⟨hout', hhead⟩ := @inputHead _ _ _ _ _ _ _ h hout seg.header u hu hbelow (by omega)
  have hule : u ≤ out.sent.length := not_lt.mp fun hlt ↦ hout.inv.length_notMem_granted
    (hbelow _ hlt)
  by_cases hpush : seg.cmd = ikcpCmdPush
  · obtain ⟨k, hcar, hcarNear⟩ := hsaid.push hpush
    have hnew : Carries inn.sent k (seg.header.segment seg.data).body := by
      refine ⟨hcar.sn, ?_, hcar.data⟩
      have hfrg : seg.frg = 0 := hcar.frg
      simp only [IkcpHeader.segment, IkcpSeg.header, IkcpSeg.body, hfrg]
      decide
    have hsn : seg.header.sn = UInt32.ofNat k := hcar.sn
    have hcmd : seg.header.cmd.toUInt32 = ikcpCmdPush := hsaid.wellFormed.header_cmd.trans hpush
    have hwin : inWindow st.kcp seg.header.sn = true := by
      rw [hsn]
      exact h.recv.inWindow hinn.inv h.rcvWnd_eq hcar.lt_length (by omega)
    have harrival : pushArrival st.kcp seg.header ≠ [] := by
      rw [pushArrival, if_pos ⟨hcmd, hwin⟩]
      exact List.cons_ne_nil _ _
    obtain ⟨hinn', hstored⟩ := hhead.inputPush hinn hnew (by omega)
    refine ⟨_, _, Set.subset_union_left, Set.subset_insert _ _, hout', hinn', ?_,
      ⟨⟨u, hule, hu, by omega, fun k hk ↦ .inr hk⟩, fun _ ↦ ⟨?_, k, Set.mem_insert k _, hsn,
        hcar.lt_length, by omega⟩⟩⟩
    · rw [KcpEcho.inputSeg]
      dsimp only
      rw [hcmd, if_neg (by decide), if_pos rfl]
      exact hstored
    · rw [inputSeg_acklist]
      exact List.append_ne_nil_of_right_ne_nil _ harrival
  · have hlearnt : ∀ acked acks, (∀ k < u, k ∈ acked) →
        Learnt out.sent.length inn.sent.length acked inn.got acks seg.header := by
      refine fun acked acks hall ↦ ⟨⟨u, hule, hu, by omega, hall⟩, ?_⟩
      rw [hsaid.wellFormed.header_cmd]
      exact fun hcmd ↦ absurd hcmd hpush
    rw [KcpEcho.inputSeg]
    dsimp only
    rw [hsaid.wellFormed.header_cmd]
    rcases hsaid.wellFormed.cmd_mem.resolve_left hpush with hc | hc | hc
    · obtain ⟨k, hk, hsn, hackNear⟩ := hsaid.ack hc
      obtain ⟨hout'', hack⟩ := @inputAck _ _ _ _ _ _ { st with kcp := KcpEcho.inputHead st.kcp _ }
        hhead hout' seg.header k hsn hk (by dsimp only; omega)
      rw [hc, if_pos rfl]
      exact ⟨_, inn.got, Set.subset_union_left.trans Set.subset_union_left, subset_rfl, hout'',
        hinn, hack, hlearnt _ _ fun k hk ↦ .inl (.inr hk)⟩
    · obtain ⟨hconfig, hsend, hrecv⟩ := inputWask_sides (KcpEcho.inputHead st.kcp seg.header)
      rw [hc, if_neg (by decide), if_neg (by decide), if_pos rfl]
      exact ⟨_, inn.got, Set.subset_union_left, subset_rfl, hout', hinn,
        hhead.of_sides hconfig hsend hrecv, hlearnt _ _ fun k hk ↦ .inr hk⟩
    · rw [hc, if_neg (by decide), if_neg (by decide), if_neg (by decide)]
      exact ⟨_, inn.got, Set.subset_union_left, subset_rfl, hout', hinn, hhead,
        hlearnt _ _ fun k hk ↦ .inr hk⟩

theorem inputSegs_learnt {st : InputState} (h : Endpoint conv user st.kcp out inn written taken)
    (hout : out.Sound) (hinn : inn.Sound) {outSeq innSeq : ℕ} {segs : List IkcpSeg}
    (hsaid : ∀ seg ∈ segs, Says conv inn out innSeq outSeq seg)
    (houtSeq : out.sent.length < outSeq + 2 ^ 29) (hinnSeq : inn.sent.length < innSeq + 2 ^ 29) :
    ∃ (acked got : Set ℕ) (more : List (UInt32 × UInt32)), out.acked ⊆ acked ∧ inn.got ⊆ got ∧
      (KcpEcho.inputSegs st segs).kcp.acklist = st.kcp.acklist ++ more ∧
      Stream.Sound { out with acked := acked } ∧ Stream.Sound { inn with got := got } ∧
      Endpoint conv user (KcpEcho.inputSegs st segs).kcp { out with acked := acked }
        { inn with got := got } written taken ∧
      ∀ seg ∈ segs, Learnt out.sent.length inn.sent.length acked got
        (KcpEcho.inputSegs st segs).kcp.acklist seg.header := by
  induction segs generalizing st out inn with
  | nil =>
    exact ⟨out.acked, inn.got, [], subset_rfl, subset_rfl, (List.append_nil _).symm, hout, hinn, h,
      fun _ hseg ↦ absurd hseg List.not_mem_nil⟩
  | cons seg segs ih =>
    obtain ⟨acked, got, hacked, hgot, hout', hinn', h', hfirst⟩ :=
      h.inputSeg_learnt hout hinn (hsaid seg List.mem_cons_self) houtSeq hinnSeq
    obtain ⟨acked', got', more, hacked', hgot', hmore, hout'', hinn'', h'', hrest⟩ :=
      ih h' hout' hinn' (fun s hs ↦ (hsaid s (List.mem_cons_of_mem _ hs)).mono
        ⟨List.prefix_refl _, subset_rfl⟩ ⟨List.prefix_refl _, subset_rfl⟩) houtSeq hinnSeq
    refine ⟨acked', got', pushArrival st.kcp seg.header ++ more, hacked.trans hacked',
      hgot.trans hgot', ?_, hout'', hinn'', h'', ?_⟩
    · rw [inputSegs_cons, hmore, inputSeg_acklist, List.append_assoc]
    · intro s hs
      rcases List.mem_cons.mp hs with rfl | hs
      · rw [inputSegs_cons, hmore]
        exact hfirst.mono hacked' hgot'
      · exact hrest s hs

/-- **A datagram** that the peer made of these segments is learnt. -/
theorem ikcpInput_learnt (h : Endpoint conv user kcp out inn written taken) (hout : out.Sound)
    (hinn : inn.Sound) {outSeq innSeq : ℕ} {g : List IkcpSeg}
    (hd : Chunk (Says conv inn out innSeq outSeq) 1400 (wires g))
    (hg : ∀ seg ∈ g, seg.WellFormed conv) (houtSeq : out.sent.length < outSeq + 2 ^ 29)
    (hinnSeq : inn.sent.length < innSeq + 2 ^ 29) :
    (KcpEcho.ikcpInput kcp (wires g)).2 = 0 ∧
      ∃ acked got : Set ℕ, out.acked ⊆ acked ∧ inn.got ⊆ got ∧
        Stream.Sound { out with acked := acked } ∧ Stream.Sound { inn with got := got } ∧
        Endpoint conv user (KcpEcho.ikcpInput kcp (wires g)).1 { out with acked := acked }
          { inn with got := got } written taken ∧
        ∀ seg ∈ g, Learnt out.sent.length inn.sent.length acked got
          (KcpEcho.ikcpInput kcp (wires g)).1.acklist seg.header := by
  obtain ⟨segs, hne, hsaid, hwires, -⟩ := hd
  obtain ⟨acked, got, more, hacked, hgot, hmore, hout', hinn', h', hlearnt⟩ :=
    @inputSegs_learnt _ _ _ _ _ _ { kcp := kcp } h hout hinn _ _ _ hsaid houtSeq hinnSeq
  have hshown := shown_eq_of_wires_eq hg (fun seg hseg ↦ (hsaid seg hseg).wellFormed) hwires
  have hinput := ikcpInput_wires (fun seg hseg ↦ h.framed.conv_eq ▸ (hsaid seg hseg).wellFormed)
    hne (by decide : ([] : List UInt8).length < _)
  rw [List.append_nil, ← hwires] at hinput
  obtain ⟨hconfig, hsend, hrecv⟩ :=
    inputFinish_sides kcp.sndUna (KcpEcho.inputSegs { kcp := kcp } segs)
  rw [hinput]
  refine ⟨rfl, acked, got, hacked, hgot, hout', hinn', h'.of_sides hconfig hsend hrecv, ?_⟩
  intro seg hseg
  have hmem : seg.shown ∈ segs.map IkcpSeg.shown := hshown ▸ List.mem_map_of_mem hseg
  obtain ⟨seg', hseg', hsame⟩ := List.mem_map.mp hmem
  have hheader : seg'.header = seg.header := congrArg Prod.fst hsame
  rw [acklist_of_recvSide hrecv]
  exact hheader ▸ hlearnt seg' hseg'

end Endpoint

/-! ## When the timer has to fire -/

/-- A clock value at which an update flushes, `r` or soon after it. -/
def dueClock (kcp : Ikcpcb) (r : UInt32) : UInt32 := if flushDue kcp r then r else r + 10000

section DueClock

variable (kcp : Ikcpcb) (r : UInt32)

/-- A deadline still to come is not ten seconds off, or the clock would seem to have jumped. -/
theorem flushDue_dueClock : flushDue kcp (dueClock kcp r) = true := by
  rw [dueClock]
  by_cases hdue : flushDue kcp r = true
  · rw [if_pos hdue]
    exact hdue
  rw [if_neg hdue]
  by_cases hupd : kcp.updated = 0
  · have hclock : updateClock kcp (r + 10000)
        = { kcp with current := r + 10000, updated := 1, tsFlush := r + 10000 } := if_pos hupd
    have hself := itimediff_of_ahead (r + 10000) (a := r + 10000) (b := r + 10000)
      ⟨by simp, by simp⟩
    rw [flushDue, hclock, decide_eq_true_eq]
    dsimp only
    rw [hself]
    omega
  · rw [flushDue, updateClock_of_updated hupd, decide_eq_true_eq] at hdue
    dsimp only at hdue
    obtain ⟨hahead, -⟩ := ahead_of_itimediff_neg (a := r) (b := kcp.tsFlush) (by omega) (by omega)
    have hstep : ahead (r + 10000) r = 10000 := ahead_add_self _ _
    have hdiff := itimediff_of_ahead r (a := r + 10000) (b := kcp.tsFlush)
      ⟨by omega, by omega⟩
    rw [flushDue, updateClock_of_updated hupd, decide_eq_true_eq]
    dsimp only
    omega

theorem itimediff_dueClock : 0 ≤ itimediff (dueClock kcp r) r := by
  have hself : ahead r r = 0 := Serial.elapsed_self _
  have hstep : ahead (r + 10000) r = 10000 := ahead_add_self _ _
  rw [dueClock]
  split_ifs
  · rw [itimediff_of_ahead r ⟨by omega, by omega⟩]
    omega
  · rw [itimediff_of_ahead r ⟨by omega, by omega⟩]
    omega

end DueClock

/-! ## What a flush is sure to send -/

theorem flushProbe_window (kcp : Ikcpcb) :
    (flushProbe kcp).sndBuf = kcp.sndBuf ∧ (flushProbe kcp).sndQueue = kcp.sndQueue ∧
      (flushProbe kcp).sndUna = kcp.sndUna ∧ (flushProbe kcp).sndNxt = kcp.sndNxt ∧
      (flushProbe kcp).rmtWnd = kcp.rmtWnd := by
  unfold flushProbe
  dsimp only
  split_ifs <;> exact ⟨rfl, rfl, rfl, rfl, rfl⟩

theorem moveToSndBuf_fresh (cwnd wnd : UInt32) (segs : List IkcpSeg) (kcp : Ikcpcb) :
    ∃ fresh, (moveToSndBuf cwnd wnd segs kcp).sndBuf = kcp.sndBuf ++ fresh ∧
      (∀ seg ∈ fresh, seg.xmit = 0) ∧
      (segs ≠ [] → itimediff kcp.sndNxt (kcp.sndUna + cwnd) < 0 → fresh ≠ []) := by
  induction segs generalizing kcp with
  | nil => exact ⟨[], (List.append_nil _).symm, fun _ h ↦ absurd h List.not_mem_nil,
      fun h ↦ absurd rfl h⟩
  | cons seg rest ih =>
    by_cases hroom : itimediff kcp.sndNxt (kcp.sndUna + cwnd) < 0
    · obtain ⟨fresh, hbuf, hxmit, -⟩ := ih
        { kcp with sndBuf := kcp.sndBuf ++ [numbered kcp wnd seg], sndNxt := kcp.sndNxt + 1 }
      refine ⟨numbered kcp wnd seg :: fresh, ?_, ?_, fun _ _ ↦ List.cons_ne_nil _ _⟩
      · rw [moveToSndBuf_cons, if_pos hroom, hbuf, List.append_assoc, List.singleton_append]
      · intro s hs
        rcases List.mem_cons.mp hs with rfl | hs
        · rfl
        · exact hxmit s hs
    · refine ⟨[], ?_, fun _ h ↦ absurd h List.not_mem_nil, fun _ h ↦ absurd h hroom⟩
      rw [moveToSndBuf_cons, if_neg hroom, List.append_nil]

theorem sentSeg_of_due {kcp : Ikcpcb} {seg : IkcpSeg} (wnd : UInt32)
    (h : seg.xmit = 0 ∨ 0 ≤ itimediff kcp.current seg.resendts) :
    ∃ s, sentSeg kcp wnd seg = some s := by
  have hneed : (sendDecision kcp (flushResent kcp) (flushRtomin kcp) seg).needsend = true := by
    unfold sendDecision
    dsimp only
    by_cases hxmit : seg.xmit = 0
    · rw [if_pos hxmit]
    · rw [if_neg hxmit, if_pos (h.resolve_left hxmit)]
  rw [sentSeg]
  dsimp only
  rw [if_pos hneed]
  exact ⟨_, rfl⟩

section Emits

variable {conv : UInt32} {user : Ptr} {kcp : Ikcpcb} {out inn : Stream}
  {written taken : List UInt8}

/-- The window is open as long as the peer has not closed it. -/
theorem room_of_rmtWnd (hf : Framed conv user kcp) (hwnd : kcp.rmtWnd ≠ 0)
    (hempty : kcp.sndNxt = kcp.sndUna) :
    itimediff kcp.sndNxt (kcp.sndUna + flushCwnd kcp) < 0 := by
  have hsnd : kcp.sndWnd = 1024 := congrArg IkcpConfig.sndWnd hf.config
  have hnocwnd : kcp.nocwnd = 1 := congrArg IkcpConfig.nocwnd hf.config
  have hle : (flushCwnd kcp).toNat ≤ 1024 := by
    have hle := flushCwnd_le kcp
    rw [hsnd] at hle
    exact hle
  have hpos : flushCwnd kcp ≠ 0 := by
    rw [flushCwnd, hnocwnd, if_neg (by decide), hsnd, imin]
    split_ifs
    · decide
    · exact hwnd
  have hpos' : (flushCwnd kcp).toNat ≠ 0 := fun hzero ↦ hpos (UInt32.toNat_inj.mp hzero)
  have hself : ahead kcp.sndUna kcp.sndUna = 0 := Serial.elapsed_self _
  have hstop : ahead (kcp.sndUna + flushCwnd kcp) kcp.sndUna = (flushCwnd kcp).toNat :=
    ahead_add_self _ _
  rw [hempty, itimediff_neg_iff kcp.sndUna (by omega) (by omega)]
  omega

/-- **The oldest segment**, once the window has been filled: it carries `snd_una`, and is new or the
one that was the oldest before. -/
theorem Endpoint.exists_oldest (h : Endpoint conv user kcp out inn written taken)
    (hout : out.Sound) (hwnd : kcp.rmtWnd ≠ 0)
    (hpending : kcp.sndBuf ≠ [] ∨ kcp.sndQueue ≠ []) :
    ∃ seg ∈ (flushMoved kcp).sndBuf, seg.sn = kcp.sndUna ∧ seg.cmd = ikcpCmdPush ∧
      (seg.xmit = 0 ∨ kcp.sndBuf.head? = some seg) := by
  obtain ⟨hsame, hqueue, huna, hnxt, hrmt⟩ := flushProbe_window { kcp with acklist := [] }
  obtain ⟨hconfig, hsend, -⟩ := flushProbe_sides { kcp with acklist := [] }
  have hbase : Framed conv user { flushProbe { kcp with acklist := [] } with probe := 0 } :=
    h.framed.of_frame hconfig hsend
  obtain ⟨fresh, hbuf, hxmit, hfresh⟩ := moveToSndBuf_fresh
    (flushCwnd { flushProbe { kcp with acklist := [] } with probe := 0 }) (ikcpWndUnused kcp)
    (flushProbe { kcp with acklist := [] }).sndQueue
    { flushProbe { kcp with acklist := [] } with probe := 0 }
  have hbuf : (KcpEcho.flushMoved kcp).sndBuf = kcp.sndBuf ++ fresh := hsame ▸ hbuf
  -- with nothing outstanding the window is all open
  have hne : kcp.sndBuf ++ fresh ≠ [] := by
    intro hnil
    obtain ⟨hold, hnew⟩ := List.append_eq_nil_iff.mp hnil
    have hnone : out.unacked = ∅ := by
      have henum := h.send.buf
      rw [Ikcpcb.sendSide, hold] at henum
      exact henum.eq_empty
    have hclosed : kcp.sndNxt = kcp.sndUna := by
      rw [show kcp.sndNxt = _ from h.send.nxt, show kcp.sndUna = _ from h.send.una,
        hout.inv.una_eq_length hnone]
    refine hfresh (fun hnil ↦ ?_) ?_ hnew
    · exact hpending.resolve_left (not_not.mpr hold) (hqueue.symm.trans hnil)
    · exact room_of_rmtWnd hbase (hrmt.trans_ne hwnd) (hnxt.trans (hclosed.trans huna.symm))
  obtain ⟨seg, rest, hcons⟩ := List.exists_cons_of_ne_nil hne
  have hmem : seg ∈ (KcpEcho.flushMoved kcp).sndBuf := by
    rw [hbuf, hcons]
    exact List.mem_cons_self
  obtain ⟨ds, hinv, -, hmoved, -⟩ := h.send.flushMoved h.framed hout.inv
  refine ⟨seg, hmem, ?_, (h.framed.flushMoved.buf _ (List.mem_map_of_mem hmem)).2.1, ?_⟩
  · have henum := hmoved.buf
    rw [Ikcpcb.sendSide, hbuf, hcons] at henum
    obtain ⟨k, hk, hle, hcar, -⟩ := henum.uncons
    have hleast : Link.una { out with sent := out.sent ++ ds } = k :=
      Link.Inv.una_eq_of_least hk hle
    have hsn : seg.sn = UInt32.ofNat k := hcar.sn
    rw [hsn, ← hleast]
    exact h.send.una.symm
  · cases hold : kcp.sndBuf with
    | nil =>
      rw [hold, List.nil_append] at hcons
      exact .inl (hxmit seg (by rw [hcons]; exact List.mem_cons_self))
    | cons first more =>
      rw [hold, List.cons_append] at hcons
      exact .inr (by rw [(List.cons.inj hcons).1]; rfl)

theorem mem_dataSegs_of_due {seg : IkcpSeg} (hmem : seg ∈ (flushMoved kcp).sndBuf)
    (h : seg.xmit = 0 ∨ 0 ≤ itimediff (flushMoved kcp).current seg.resendts) :
    ∃ s ∈ dataSegs kcp, s.body = seg.body := by
  obtain ⟨s, hsent⟩ := sentSeg_of_due (ikcpWndUnused kcp) h
  exact ⟨s, List.mem_filterMap.mpr ⟨seg, hmem, hsent⟩, sentSeg_body hsent⟩

/-- **The oldest segment goes out** in a flush that comes late enough. -/
theorem Endpoint.exists_push (h : Endpoint conv user kcp out inn written taken)
    (hout : out.Sound) (hwnd : kcp.rmtWnd ≠ 0) (hpending : kcp.sndBuf ≠ [] ∨ kcp.sndQueue ≠ [])
    (hlate : ∀ seg ∈ kcp.sndBuf.head?, 0 ≤ itimediff kcp.current seg.resendts) :
    ∃ seg ∈ flushSegs kcp, seg.cmd = ikcpCmdPush ∧ seg.sn = kcp.sndUna := by
  obtain ⟨seg, hmem, hsn, hcmd, hnew⟩ := h.exists_oldest hout hwnd hpending
  have hnow : (KcpEcho.flushMoved kcp).current = kcp.current :=
    congrArg ClockSide.current (flushMoved_clock _)
  obtain ⟨s, hs, hbody⟩ := mem_dataSegs_of_due hmem
    (hnew.imp_right fun hhead ↦ hnow.symm ▸ hlate seg hhead)
  refine ⟨s, List.mem_append_right _ (List.mem_append_right _ hs), ?_, ?_⟩
  · exact (congrArg SegBody.cmd hbody).trans hcmd
  · exact (congrArg SegBody.sn hbody).trans hsn

/-- There is a time at which the timer makes it go out. -/
theorem Endpoint.exists_push_tick (h : Endpoint conv user kcp out inn written taken)
    (hout : out.Sound) (hwnd : kcp.rmtWnd ≠ 0)
    (hpending : kcp.sndBuf ≠ [] ∨ kcp.sndQueue ≠ []) :
    ∃ current, flushDue kcp current = true ∧
      ∃ seg ∈ flushSegs (scheduled kcp current), seg.cmd = ikcpCmdPush ∧ seg.sn = kcp.sndUna := by
  have hclock : ∃ current, flushDue kcp current = true ∧
      ∀ seg ∈ kcp.sndBuf.head?, 0 ≤ itimediff current seg.resendts := by
    cases hhead : kcp.sndBuf.head? with
    | none => exact ⟨_, flushDue_dueClock kcp 0, fun _ hseg ↦ absurd hseg (by simp)⟩
    | some seg =>
      refine ⟨_, flushDue_dueClock kcp seg.resendts, fun s hs ↦ ?_⟩
      obtain rfl := Option.some.inj hs
      exact itimediff_dueClock kcp _
  obtain ⟨current, hdue, hlate⟩ := hclock
  obtain ⟨hconfig, hsend, hrecv, -, -⟩ := scheduled_sides kcp current
  have h' := h.of_sides hconfig hsend hrecv
  obtain ⟨tsFlush, updated, heq⟩ := scheduled_eq kcp current
  rw [heq] at h'
  refine ⟨current, hdue, ?_⟩
  rw [heq]
  exact h'.exists_push hout hwnd hpending hlate

theorem exists_ack {kcp : Ikcpcb} (h : kcp.acklist ≠ []) :
    ∃ current, flushDue kcp current = true ∧ flushSegs (scheduled kcp current) ≠ [] := by
  refine ⟨_, flushDue_dueClock kcp 0, ?_⟩
  obtain ⟨tsFlush, updated, heq⟩ := scheduled_eq kcp (dueClock kcp 0)
  rw [flushSegs, ackSegs, heq]
  exact List.append_ne_nil_of_left_ne_nil (fun hnil ↦ h (List.map_eq_nil_iff.mp hnil)) _

/-- What a group of segments has to be for a datagram that the peer understands. -/
structure Readable (conv : UInt32) (kcp : Ikcpcb) (g : List IkcpSeg) : Prop where
  ne_nil : g ≠ []
  wellFormed : ∀ seg ∈ g, seg.WellFormed conv
  una : ∀ seg ∈ g, seg.una = kcp.rcvNxt
  wnd : ∀ seg ∈ g, seg.wnd = ikcpWndUnused kcp

theorem Framed.update_groups (h : Framed conv user kcp) (current : UInt32) :
    ∃ groups : List (List IkcpSeg), (ikcpUpdate kcp current).2 = groups.map wires ∧
      (∀ g ∈ groups, Readable conv kcp g) ∧
      (flushDue kcp current = true →
        groups.flatten = KcpEcho.flushSegs (scheduled kcp current)) := by
  by_cases hdue : flushDue kcp current = true
  · obtain ⟨hconfig, hsend, hrecv, hupd, -⟩ := scheduled_sides kcp current
    have hs : Framed conv user (scheduled kcp current) := h.of_frame hconfig hsend
    obtain ⟨tsFlush, updated, heq⟩ := scheduled_eq kcp current
    refine ⟨_, (congrArg Prod.snd (ikcpUpdate_of_due hdue)).trans (ikcpFlush_snd_eq_pack hupd), ?_,
      fun _ ↦ Packing.flatten_pack _⟩
    intro g hg
    have hin : ∀ seg ∈ g, seg ∈ KcpEcho.flushSegs (scheduled kcp current) := by
      intro seg hseg
      rw [← @Packing.flatten_pack _ IkcpSeg.need (scheduled kcp current).mtu.toNat
        (KcpEcho.flushSegs (scheduled kcp current))]
      exact List.mem_flatten.mpr ⟨g, hg, hseg⟩
    refine ⟨Packing.ne_nil_of_mem_pack hg, fun seg hseg ↦ (hs.flushSegs seg (hin seg hseg)).1,
      fun seg hseg ↦ ?_, fun seg hseg ↦ ?_⟩
    · rw [(flushSegs_reports _ seg (hin seg hseg)).1, heq]
    · rw [(flushSegs_reports _ seg (hin seg hseg)).2, heq]
      rfl
  · refine ⟨[], ?_, fun _ hg ↦ absurd hg List.not_mem_nil, fun h ↦ absurd h hdue⟩
    rw [ikcpUpdate_of_not_due (Bool.not_eq_true _ ▸ hdue)]
    rfl

theorem Framed.exists_datagram (h : Framed conv user kcp) {current : UInt32}
    (hdue : flushDue kcp current = true) {seg : IkcpSeg}
    (hseg : seg ∈ KcpEcho.flushSegs (scheduled kcp current)) :
    ∃ g, wires g ∈ (ikcpUpdate kcp current).2 ∧ seg ∈ g ∧ Readable conv kcp g := by
  obtain ⟨groups, hout, hread, hall⟩ := h.update_groups current
  rw [← hall hdue] at hseg
  obtain ⟨g, hg, hmem⟩ := List.mem_flatten.mp hseg
  exact ⟨g, hout ▸ List.mem_map_of_mem hg, hmem, hread g hg⟩

end Emits

/-! ## The peer's window

`rmt_wnd` holds what the last segment said, and the two programs never say 0: between handlers
their receive queues are empty. -/

section RmtWnd

variable (kcp : Ikcpcb)

theorem moveAvailableLoop_rmtWnd (segs : List IkcpSeg) :
    (moveAvailableLoop segs kcp).rmtWnd = kcp.rmtWnd := by
  induction segs generalizing kcp with
  | nil => rfl
  | cons seg rest ih =>
    rw [moveAvailableLoop]
    split
    · exact ih _
    · rfl

theorem inputSeg_rmtWnd (st : InputState) (h : IkcpHeader) (data : List UInt8) :
    (inputSeg st h data).kcp.rmtWnd = h.wnd.toUInt32 := by
  have hshrink : ∀ kcp : Ikcpcb, (ikcpShrinkBuf kcp).rmtWnd = kcp.rmtWnd := by
    intro kcp
    unfold ikcpShrinkBuf
    split <;> rfl
  have hhead : (inputHead st.kcp h).rmtWnd = h.wnd.toUInt32 := hshrink _
  have hack : ∀ kcp : Ikcpcb, (ikcpParseAck (inputRtt kcp h.ts) h.sn).rmtWnd = kcp.rmtWnd := by
    intro kcp
    unfold ikcpParseAck inputRtt ikcpUpdateAck
    dsimp only
    split_ifs <;> rfl
  have hpush : ∀ kcp : Ikcpcb, (inputPush kcp h data).rmtWnd = kcp.rmtWnd := by
    intro kcp
    unfold inputPush ikcpParseData
    dsimp only
    split_ifs <;> first | rfl | exact moveAvailableLoop_rmtWnd _ _
  unfold inputSeg
  dsimp only
  split_ifs
  · rw [inputAck_kcp, hshrink, hack]
    exact hhead
  · exact (hpush _).trans hhead
  · exact hhead
  · exact hhead

theorem inputFinish_rmtWnd (prevUna : UInt32) (st : InputState) :
    (inputFinish prevUna st).rmtWnd = st.kcp.rmtWnd := by
  have hcwnd : ∀ kcp : Ikcpcb, (updateCwnd kcp).rmtWnd = kcp.rmtWnd := by
    intro kcp
    unfold updateCwnd
    split
    · dsimp only
      split_ifs <;> rfl
    · rfl
  have hfastack : ∀ (kcp : Ikcpcb) (sn ts : UInt32),
      (ikcpParseFastack kcp sn ts).rmtWnd = kcp.rmtWnd := by
    intro kcp sn ts
    unfold ikcpParseFastack
    split <;> rfl
  unfold inputFinish
  dsimp only
  split_ifs <;> simp only [hcwnd, hfastack]

theorem ikcpSend_rmtWnd (buffer : List UInt8) :
    (ikcpSend kcp buffer).1.rmtWnd = kcp.rmtWnd := by
  have h : (extendPrevious kcp buffer).1.rmtWnd = kcp.rmtWnd := by
    unfold extendPrevious
    split
    · rfl
    · split <;> rfl
  unfold ikcpSend
  dsimp only
  split_ifs <;> first | exact h | rfl

theorem ikcpRecv_rmtWnd (len : ℤ) : (ikcpRecv kcp len).1.rmtWnd = kcp.rmtWnd := by
  unfold ikcpRecv
  dsimp only
  split_ifs <;> first | rfl | exact moveAvailableLoop_rmtWnd _ _

theorem flushMoved_rmtWnd : (flushMoved kcp).rmtWnd = kcp.rmtWnd := by
  have hmove : ∀ (cwnd wnd : UInt32) (segs : List IkcpSeg) (kcp : Ikcpcb),
      (moveToSndBuf cwnd wnd segs kcp).rmtWnd = kcp.rmtWnd := by
    intro cwnd wnd segs
    induction segs with
    | nil => exact fun _ ↦ rfl
    | cons seg rest ih =>
      intro kcp
      rw [moveToSndBuf]
      split
      · exact ih _
      · rfl
  exact (hmove _ _ _ _).trans (flushProbe_window { kcp with acklist := [] }).2.2.2.2

theorem ikcpFlush_rmtWnd : (ikcpFlush kcp).1.rmtWnd = kcp.rmtWnd := by
  have hssthresh : ∀ (kcp : Ikcpcb) (resent cwnd : UInt32) (change lost : Bool),
      (updateSsthresh kcp resent cwnd change lost).rmtWnd = kcp.rmtWnd := by
    intro kcp resent cwnd change lost
    unfold updateSsthresh
    dsimp only
    split_ifs <;> rfl
  by_cases hupd : kcp.updated = 0
  · rw [ikcpFlush_of_not_updated hupd]
  · rw [ikcpFlush, if_neg hupd]
    exact (hssthresh _ _ _ _ _).trans (flushMoved_rmtWnd kcp)

theorem ikcpUpdate_rmtWnd (current : UInt32) :
    (ikcpUpdate kcp current).1.rmtWnd = kcp.rmtWnd := by
  by_cases hdue : flushDue kcp current = true
  · obtain ⟨tsFlush, updated, heq⟩ := scheduled_eq kcp current
    rw [ikcpUpdate_of_due hdue, ikcpFlush_rmtWnd, heq]
  · rw [ikcpUpdate_of_not_due (Bool.not_eq_true _ ▸ hdue)]
    unfold updateClock
    split <;> rfl

theorem echoLoop_rmtWnd (fuel : ℕ) (log : EchoLog) :
    (echoLoop fuel kcp log).1.rmtWnd = kcp.rmtWnd := by
  induction fuel generalizing kcp log with
  | zero => rfl
  | succ fuel ih =>
    rw [echoLoop]
    dsimp only
    split
    · exact ikcpRecv_rmtWnd _ _
    · split
      · exact (ikcpSend_rmtWnd _ _).trans (ikcpRecv_rmtWnd _ _)
      · exact (ih _ _).trans ((ikcpSend_rmtWnd _ _).trans (ikcpRecv_rmtWnd _ _))

theorem drainLoop_rmtWnd (fuel : ℕ) (taken : List UInt8) :
    (drainLoop fuel kcp taken).1.rmtWnd = kcp.rmtWnd := by
  induction fuel generalizing kcp taken with
  | zero => rfl
  | succ fuel ih =>
    rw [drainLoop]
    dsimp only
    split
    · exact ikcpRecv_rmtWnd _ _
    · exact (ih _ _).trans (ikcpRecv_rmtWnd _ _)

theorem echo_rmtWnd : (echo kcp).1.rmtWnd = kcp.rmtWnd := echoLoop_rmtWnd _ _ _

theorem drain_rmtWnd : (drain kcp).1.rmtWnd = kcp.rmtWnd := drainLoop_rmtWnd _ _ _

/-- A datagram of a peer whose window is open. -/
def OpenDatagram (conv : UInt32) (d : List UInt8) : Prop :=
  ∃ g, g ≠ [] ∧ d = wires g ∧ ∀ seg ∈ g, seg.WellFormed conv ∧ seg.header.wnd ≠ 0

variable {kcp} in
theorem OpenDatagram.ikcpInput_rmtWnd {conv : UInt32} {d : List UInt8} (h : OpenDatagram conv d)
    (hconv : kcp.conv = conv) : (ikcpInput kcp d).1.rmtWnd ≠ 0 := by
  obtain ⟨g, hne, rfl, hg⟩ := h
  have hopen : ∀ (segs : List IkcpSeg) (st : InputState), (∀ seg ∈ segs, seg.header.wnd ≠ 0) →
      st.kcp.rmtWnd ≠ 0 ∨ segs ≠ [] → (inputSegs st segs).kcp.rmtWnd ≠ 0 := by
    intro segs
    induction segs with
    | nil => exact fun st _ h ↦ h.resolve_right (not_not.mpr rfl)
    | cons seg segs ih =>
      intro st hsegs _
      refine ih _ (fun s hs ↦ hsegs s (List.mem_cons_of_mem _ hs)) (.inl ?_)
      rw [inputSeg_rmtWnd]
      intro hzero
      refine hsegs seg List.mem_cons_self (UInt16.toNat_inj.mp ?_)
      exact (UInt16.toNat_toUInt32 _).symm.trans (congrArg UInt32.toNat hzero)
  have hinput := ikcpInput_wires (fun seg hseg ↦ hconv ▸ (hg seg hseg).1) hne
    (by decide : ([] : List UInt8).length < _)
  rw [List.append_nil] at hinput
  rw [hinput]
  dsimp only
  rw [inputFinish_rmtWnd]
  exact hopen g _ (fun seg hseg ↦ (hg seg hseg).2) (.inr hne)

end RmtWnd

/-- What an end with an empty receive queue sends leaves its peer's window open. -/
theorem Framed.update_open {conv : UInt32} {user : Ptr} {kcp : Ikcpcb} (h : Framed conv user kcp)
    (hidle : kcp.rcvQueue = []) (current : UInt32) :
    ∀ d ∈ (ikcpUpdate kcp current).2, OpenDatagram conv d := by
  obtain ⟨groups, hout, hread, -⟩ := h.update_groups current
  have hwnd : kcp.rcvWnd = 1024 := congrArg IkcpConfig.rcvWnd h.config
  have hunused : ikcpWndUnused kcp = 1024 := by
    rw [ikcpWndUnused, Ikcpcb.nrcvQue, hidle, hwnd]
    decide
  intro d hd
  rw [hout] at hd
  obtain ⟨g, hg, rfl⟩ := List.mem_map.mp hd
  refine ⟨g, (hread g hg).ne_nil, rfl, fun seg hseg ↦ ⟨(hread g hg).wellFormed seg hseg, ?_⟩⟩
  have hseg : seg.wnd = 1024 := ((hread g hg).wnd seg hseg).trans hunused
  rw [IkcpSeg.header]
  dsimp only
  rw [hseg]
  decide

end KcpEcho
