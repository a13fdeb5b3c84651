import KcpEcho.Session.Receiver

/-!
# One end of a session

A control block sends one stream and receives another. `Endpoint` puts the two representations
together, and `Says` is what a segment on the wire may be relied on to mean: which numbers it
acknowledges, which number it carries, and how far the two streams had come when it left. What a
segment says stays true while the streams grow (`Says.mono`), so it does not matter when, how often
or in which order the network delivers it.

The four things a handler does to a block are specified here: an update, which is where segments
leave; the input of a datagram whose segments say true things; and the two receive loops.
-/

namespace KcpEcho

open SelectiveRepeat

/-! ## What a segment says -/

/-- What holds of each of the two streams at any time. -/
structure Stream.Sound (l : Stream) : Prop where
  inv : l.Inv sessionWindow
  payload : ∀ d ∈ l.sent, d.length ≤ sessionMss

/-- What a segment says that left a block sending `out` and receiving `inn` when `outSeq` and
`innSeq` numbers had been assigned. -/
structure Says (conv : UInt32) (out inn : Stream) (outSeq innSeq : ℕ) (seg : IkcpSeg) : Prop where
  wellFormed : seg.WellFormed conv
  /-- Everything below `una` has been reported; it cannot be far behind. -/
  una : ∃ u, seg.una = UInt32.ofNat u ∧ (∀ k < u, k ∈ inn.granted) ∧ innSeq ≤ u + 2 ^ 10
  ack : seg.cmd = ikcpCmdAck →
    ∃ k ∈ inn.granted, seg.sn = UInt32.ofNat k ∧ innSeq ≤ k + 2 ^ 29 + 2 ^ 11
  push : seg.cmd = ikcpCmdPush → ∃ k, Carries out.sent k seg.body ∧ outSeq ≤ k + 2 ^ 10

theorem Says.mono {conv : UInt32} {out inn out' inn' : Stream} {outSeq innSeq : ℕ} {seg : IkcpSeg}
    (h : Says conv out inn outSeq innSeq seg) (hout : out.Extends out')
    (hinn : inn.Extends inn') : Says conv out' inn' outSeq innSeq seg where
  wellFormed := h.wellFormed
  una := by
    obtain ⟨u, hu, hbelow, hnear⟩ := h.una
    exact ⟨u, hu, fun k hk ↦ hinn.granted (hbelow k hk), hnear⟩
  ack hcmd := by
    obtain ⟨k, hk, hrest⟩ := h.ack hcmd
    exact ⟨k, hinn.granted hk, hrest⟩
  push hcmd := by
    obtain ⟨k, hcar, hnear⟩ := h.push hcmd
    exact ⟨k, ⟨hcar.sn, hcar.frg, hout.getElem? hcar.data⟩, hnear⟩

/-! ## Rejected segments -/

/-- Does the decoding loop meet a PUSH segment at or beyond the end of the receive window? It
follows `inputLoop` step by step. -/
def pushRejectedLoop : ℕ → InputState → List UInt8 → Bool
  | 0, _, _ => false
  | fuel + 1, st, data =>
    if data.length < ikcpOverhead then false
    else
      let (h, rest) := decodeHeader data
      match headerError st.kcp.conv h rest.length with
      | some _ => false
      | none =>
        (h.cmd.toUInt32 = ikcpCmdPush && !inWindow (inputHead st.kcp h) h.sn) ||
          pushRejectedLoop fuel (inputSeg st h (rest.take h.len.toNat)) (rest.drop h.len.toNat)

/-- `ikcp_input` on this datagram drops a PUSH segment for its place in the window. -/
def pushRejected (kcp : Ikcpcb) (data : List UInt8) : Bool :=
  pushRejectedLoop data.length { kcp := kcp } data

/-! ## The representation -/

/-- A configured block that sends `out`, into which `written` went, and receives `inn`, of which
`taken` was handed out. -/
structure Endpoint (conv : UInt32) (user : Ptr) (kcp : Ikcpcb) (out inn : Stream)
    (written taken : List UInt8) : Prop where
  framed : Framed conv user kcp
  send : kcp.sendSide.Represents out written
  recv : kcp.recvSide.Represents inn taken
  reports : kcp.recvSide.Reports inn

section Endpoint

variable {conv : UInt32} {user : Ptr} {kcp kcp' : Ikcpcb} {out inn : Stream}
  {written taken : List UInt8}

namespace Endpoint

theorem of_sides (h : Endpoint conv user kcp out inn written taken)
    (hconfig : kcp'.config = kcp.config) (hsend : kcp'.sendSide = kcp.sendSide)
    (hrecv : kcp'.recvSide = kcp.recvSide) : Endpoint conv user kcp' out inn written taken where
  framed := h.framed.of_frame hconfig hsend
  send := hsend ▸ h.send
  recv := hrecv ▸ h.recv
  reports := hrecv ▸ h.reports

theorem rcvWnd_eq (h : Endpoint conv user kcp out inn written taken) : kcp.rcvWnd = 1024 :=
  congrArg IkcpConfig.rcvWnd h.framed.config

theorem init (conv : UInt32) (user : Ptr) :
    Endpoint conv user (configuredKcp conv user) Link.empty Link.empty [] [] where
  framed := .init conv user
  send := by
    have hnone : (Link.empty : Stream).unacked = ∅ := by
      ext k
      simp [Link.unacked, Link.empty]
    exact ⟨rfl, congrArg UInt32.ofNat Link.una_empty.symm, .of_eq .nil hnone.symm, rfl⟩
  recv := by
    have hnone : (Link.empty : Stream).waiting = ∅ := by
      ext k
      simp [Link.waiting, Link.empty]
    refine ⟨⟨congrArg UInt32.ofNat Link.nxt_empty.symm, fun k hk ↦ mem_of_lt_first hk,
      fun seg hseg ↦ absurd hseg List.not_mem_nil, ?_, ?_⟩, .of_eq .nil hnone.symm⟩
    · rw [Link.nxt_empty]
      rfl
    · rw [Link.nxt_empty, Link.una_empty]
      exact le_rfl
  reports a ha := absurd ha List.not_mem_nil

/-! ### Sending -/

theorem ikcpSend (h : Endpoint conv user kcp out inn written taken) (buffer : List UInt8) :
    Endpoint conv user (ikcpSend kcp buffer).1 out inn
      (written ++ buffer.take (ikcpSend kcp buffer).2.toNat) taken where
  framed := h.framed.send buffer
  send := h.send.send h.framed buffer
  recv := (ikcpSend_frame kcp buffer).2 ▸ h.recv
  reports := (ikcpSend_frame kcp buffer).2 ▸ h.reports

/-! ### Updating -/

theorem flush_said (h : Endpoint conv user kcp out inn written taken) (hinn : inn.Sound)
    {ds : List (List UInt8)} (hout : Link.Inv sessionWindow { out with sent := out.sent ++ ds })
    (hmoved : (flushMoved kcp).sendSide.Represents { out with sent := out.sent ++ ds } written) :
    ∀ d ∈ (ikcpFlush kcp).2, Chunk (Says conv { out with sent := out.sent ++ ds }
      { inn with granted := inn.got } (out.sent ++ ds).length inn.sent.length) 1400 d := by
  have hmtu : ikcpOverhead ≤ kcp.mtu.toNat := by rw [h.framed.mtu_eq]; decide
  have hchain := hinn.inv.chain
  rw [sessionWindow] at hchain
  have huna : ∀ seg : IkcpSeg, seg.una = kcp.rcvNxt → ∃ u, seg.una = UInt32.ofNat u ∧
      (∀ k < u, k ∈ inn.got) ∧ inn.sent.length ≤ u + 2 ^ 10 :=
    fun seg hseg ↦ ⟨inn.nxt, hseg.trans h.recv.nxt, fun _ hk ↦ mem_of_lt_first hk, by omega⟩
  have hempty : ∀ seg : IkcpSeg, seg.data = [] → seg.data.length < 2 ^ 31 := by
    intro seg hdata
    rw [hdata]
    decide
  rw [← h.framed.mtu_eq]
  refine ikcpFlush_chunk kcp hmtu (fun a ha seg hseg hcmd hsn ↦ ?_) (fun seg hseg hcmd ↦ ?_)
    (fun seg hseg hrcv ↦ ?_)
  · -- an acknowledgement: its number is stored, and reported from now on
    obtain ⟨k, hk, hak, hnear⟩ := h.reports a ha
    exact ⟨⟨hseg.1.trans h.framed.conv_eq, .inr (.inl hcmd), hempty seg hseg.2.2.2.2⟩,
      huna seg hseg.2.2.2.1, fun _ ↦ ⟨k, hk, hsn.trans hak, by omega⟩,
      fun hpush ↦ absurd (hcmd.symm.trans hpush) (by decide)⟩
  · -- a window probe or its answer
    refine ⟨⟨hseg.1.trans h.framed.conv_eq, .inr (.inr hcmd), hempty seg hseg.2.2.2.2⟩,
      huna seg hseg.2.2.2.1, fun hack ↦ ?_, fun hpush ↦ ?_⟩
    · rcases hcmd with hcmd | hcmd <;> exact absurd (hcmd.symm.trans hack) (by decide)
    · rcases hcmd with hcmd | hcmd <;> exact absurd (hcmd.symm.trans hpush) (by decide)
  · -- a segment of the send buffer
    obtain ⟨hconv, hcmd, hlen⟩ := h.framed.flushMoved.buf _ hseg
    obtain ⟨k, hk, hcar⟩ := hmoved.buf.exists_of_mem hseg
    have hbounds := hout.mem_unacked_bounds hk
    have hlen : seg.data.length ≤ sessionMss := hlen
    have hcmd : seg.cmd = ikcpCmdPush := hcmd
    rw [sessionMss] at hlen
    rw [h.framed.mtu_eq, ikcpOverhead, IkcpSeg.len]
    refine ⟨⟨⟨hconv, .inl hcmd, by omega⟩, huna seg hrcv, fun hack ↦ ?_, fun _ ↦ ?_⟩, by omega⟩
    · exact absurd (hcmd.symm.trans hack) (by decide)
    · exact ⟨k, hcar, hbounds.2.2⟩

/-- **An update** may assign numbers to the head of the queue and may report what was received. The
segments it emits say so. -/
theorem ikcpUpdate (h : Endpoint conv user kcp out inn written taken) (hout : out.Sound)
    (hinn : inn.Sound) (current : UInt32) :
    ∃ (ds : List (List UInt8)) (granted : Set ℕ),
      Stream.Sound { out with sent := out.sent ++ ds } ∧
      Stream.Sound { inn with granted := granted } ∧ inn.granted ⊆ granted ∧
      Endpoint conv user (ikcpUpdate kcp current).1 { out with sent := out.sent ++ ds }
        { inn with granted := granted } written taken ∧
      (ikcpUpdate kcp current).1.sndQueue.length + ds.length = kcp.sndQueue.length ∧
      (ikcpUpdate kcp current).1.rcvQueue = kcp.rcvQueue ∧
      ∀ d ∈ (ikcpUpdate kcp current).2, Chunk (Says conv { out with sent := out.sent ++ ds }
        { inn with granted := granted } (out.sent ++ ds).length inn.sent.length) 1400 d := by
  obtain ⟨kcp', hconfig, hsend, hrecv, hupd, heq | heq⟩ := ikcpUpdate_cases kcp current
  · -- a flush: what it moves into the buffer is new on the stream
    have h' := h.of_sides hconfig hsend hrecv
    have hqueue : kcp'.sndQueue.length = kcp.sndQueue.length := by
      simpa [Ikcpcb.sendSide] using congrArg (fun side ↦ side.queue.length) hsend
    obtain ⟨ds, hinv, hds, hmoved, hlen⟩ := h'.send.flushMoved h'.framed hout.inv
    obtain ⟨-, hsend', hrecv'⟩ := ikcpFlush_sides hupd
    have hleft : (ikcpFlush kcp').1.sndQueue.length
        = (KcpEcho.flushMoved kcp').sndQueue.length := by
      simpa [Ikcpcb.sendSide] using congrArg (fun side ↦ side.queue.length) hsend'
    rw [heq]
    refine ⟨ds, inn.got, ⟨hinv, fun d hd ↦ ?_⟩, ⟨hinn.inv.report, hinn.payload⟩,
      hinn.inv.granted_got, ⟨h'.framed.flush, hsend' ▸ hmoved, ?_, ?_⟩, ?_, ?_,
      h'.flush_said hinn hinv hmoved⟩
    · rcases List.mem_append.mp hd with hd | hd
      · exact hout.payload d hd
      · exact hds d hd
    · rw [hrecv']
      exact ⟨⟨h'.recv.nxt, h'.recv.got, h'.recv.queue, h'.recv.bytes, h'.recv.room⟩, h'.recv.buf⟩
    · rw [hrecv']
      exact fun a ha ↦ absurd ha List.not_mem_nil
    · omega
    · exact (congrArg RecvSide.queue hrecv').trans (congrArg RecvSide.queue hrecv)
  · -- no flush is due: only the clock moves
    have hqueue : kcp'.sndQueue.length = kcp.sndQueue.length := by
      simpa [Ikcpcb.sendSide] using congrArg (fun side ↦ side.queue.length) hsend
    have h' := h.of_sides hconfig hsend hrecv
    rw [heq]
    refine ⟨[], inn.granted, ?_, hinn, subset_rfl, ?_, hqueue, congrArg RecvSide.queue hrecv,
      fun d hd ↦ absurd hd List.not_mem_nil⟩ <;> rw [List.append_nil]
    · exact hout
    · exact h'

/-! ### Receiving a datagram -/

theorem inputHead (h : Endpoint conv user kcp out inn written taken) (hout : out.Sound)
    {hd : IkcpHeader} {u : ℕ} (huna : hd.una = UInt32.ofNat u) (hbelow : ∀ k < u, k ∈ out.granted)
    (hnear : out.sent.length ≤ u + 2 ^ 30) :
    Stream.Sound { out with acked := out.acked ∪ {k | k < u} } ∧
      Endpoint conv user (inputHead kcp hd) { out with acked := out.acked ∪ {k | k < u} } inn
        written taken := by
  have hstart : ({ kcp with rmtWnd := hd.wnd.toUInt32 } : Ikcpcb).sendSide.Represents out written :=
    h.send
  obtain ⟨hconfig, hrecv⟩ := inputHead_frame kcp hd
  refine ⟨⟨hout.inv.ack hbelow, hout.payload⟩,
    h.framed.of_shrinks hconfig (SendShrinks.inputHead kcp hd), ?_, hrecv ▸ h.recv,
    hrecv ▸ h.reports⟩
  rw [KcpEcho.inputHead, huna]
  exact hstart.inputUna hout.inv hbelow hnear

theorem inputAck {st : InputState} (h : Endpoint conv user st.kcp out inn written taken)
    (hout : out.Sound) {hd : IkcpHeader} {k : ℕ} (hsn : hd.sn = UInt32.ofNat k)
    (hk : k ∈ out.granted) (hnear : out.sent.length ≤ k + 2 ^ 30 + 2 ^ 12) :
    Stream.Sound { out with acked := out.acked ∪ {k} } ∧
      Endpoint conv user (inputAck st hd).kcp { out with acked := out.acked ∪ {k} } inn
        written taken := by
  obtain ⟨hconfig, hsend, hrecv⟩ := inputRtt_sides st.kcp hd.ts
  have hrtt := h.of_sides hconfig hsend hrecv
  have hparse := ikcpParseAck_frame (inputRtt st.kcp hd.ts) (UInt32.ofNat k)
  have hshrink := ikcpShrinkBuf_frame (ikcpParseAck (inputRtt st.kcp hd.ts) (UInt32.ofNat k))
  rw [inputAck_kcp, hsn]
  exact ⟨⟨hout.inv.ack (Set.singleton_subset_iff.mpr hk), hout.payload⟩,
    hrtt.framed.of_shrinks (hshrink.1.trans hparse.1)
      ((SendShrinks.parseAck _ _).trans (SendShrinks.shrinkBuf _)),
    hrtt.send.inputAck hout.inv hk hnear, (hshrink.2.trans hparse.2) ▸ hrtt.recv,
    (hshrink.2.trans hparse.2) ▸ hrtt.reports⟩

theorem inputPush (h : Endpoint conv user kcp out inn written taken) (hinn : inn.Sound)
    {hd : IkcpHeader} {data : List UInt8} {k : ℕ} (hnew : Carries inn.sent k (hd.segment data).body)
    (hnear : inn.sent.length ≤ k + 2 ^ 29 + 2 ^ 10) :
    Stream.Sound { inn with got := insert k inn.got } ∧
      Endpoint conv user (inputPush kcp hd data) out { inn with got := insert k inn.got }
        written taken := by
  obtain ⟨hconfig, hsend⟩ := inputPush_frame kcp hd data
  obtain ⟨hrecv, hreports⟩ :=
    h.recv.inputPush h.reports hinn.inv hinn.payload h.rcvWnd_eq hnew hnear
  exact ⟨⟨hinn.inv.store hnew.lt_length, hinn.payload⟩, h.framed.of_frame hconfig hsend,
    hsend ▸ h.send, hrecv, hreports⟩

/-- **One segment** that says true things moves the window of the stream sent, and may store a
number of the stream received. It is not rejected for its place in the window. -/
theorem inputSeg {st : InputState} (h : Endpoint conv user st.kcp out inn written taken)
    (hout : out.Sound) (hinn : inn.Sound) {outSeq innSeq : ℕ} {seg : IkcpSeg}
    (hsaid : Says conv inn out innSeq outSeq seg) (houtSeq : out.sent.length < outSeq + 2 ^ 29)
    (hinnSeq : inn.sent.length < innSeq + 2 ^ 29) :
    ∃ acked got : Set ℕ, Stream.Sound { out with acked := acked } ∧
      Stream.Sound { inn with got := got } ∧
      Endpoint conv user (inputSeg st seg.header seg.data).kcp { out with acked := acked }
        { inn with got := got } written taken ∧
      (seg.cmd = ikcpCmdPush →
        inWindow (KcpEcho.inputHead st.kcp seg.header) seg.header.sn = true) := by
  obtain ⟨u, hu, hbelow, hnear⟩ := hsaid.una
  -- every segment acknowledges cumulatively before its command is looked at
  obtain ⟨hout', hhead⟩ := @inputHead _ _ _ _ _ _ _ h hout seg.header u hu hbelow (by omega)
  rw [KcpEcho.inputSeg]
  dsimp only
  rw [hsaid.wellFormed.header_cmd]
  rcases hsaid.wellFormed.cmd_mem with hc | hc | hc | hc
  · -- data
    obtain ⟨k, hcar, hcarNear⟩ := hsaid.push hc
    have hnew : Carries inn.sent k (seg.header.segment seg.data).body := by
      refine ⟨hcar.sn, ?_, hcar.data⟩
      have hfrg : seg.frg = 0 := hcar.frg
      simp only [IkcpHeader.segment, IkcpSeg.header, IkcpSeg.body, hfrg]
      decide
    obtain ⟨hinn', hpush⟩ := hhead.inputPush hinn hnew (by omega)
    have hsn : seg.header.sn = UInt32.ofNat k := hcar.sn
    rw [hc, if_neg (by decide), if_pos rfl]
    refine ⟨_, _, hout', hinn', hpush, ?_⟩
    intro _
    rw [hsn]
    exact hhead.recv.inWindow hinn.inv hhead.rcvWnd_eq hcar.lt_length (by omega)
  · -- an acknowledgement
    obtain ⟨k, hk, hsn, hackNear⟩ := hsaid.ack hc
    obtain ⟨hout'', hack⟩ := @inputAck _ _ _ _ _ _ { st with kcp := KcpEcho.inputHead st.kcp _ }
      hhead hout' seg.header k hsn hk (by dsimp only; omega)
    rw [hc, if_pos rfl]
    exact ⟨_, inn.got, hout'', hinn, hack, fun hpush ↦ absurd hpush (by decide)⟩
  · -- a window probe
    obtain ⟨hconfig, hsend, hrecv⟩ := inputWask_sides (KcpEcho.inputHead st.kcp seg.header)
    rw [hc, if_neg (by decide), if_neg (by decide), if_pos rfl]
    exact ⟨_, inn.got, hout', hinn, hhead.of_sides hconfig hsend hrecv,
      fun hpush ↦ absurd hpush (by decide)⟩
  · -- the answer to one
    rw [hc, if_neg (by decide), if_neg (by decide), if_neg (by decide)]
    exact ⟨_, inn.got, hout', hinn, hhead, fun hpush ↦ absurd hpush (by decide)⟩

theorem inputSegs {st : InputState} (h : Endpoint conv user st.kcp out inn written taken)
    (hout : out.Sound) (hinn : inn.Sound) {outSeq innSeq : ℕ} {segs : List IkcpSeg}
    (hsaid : ∀ seg ∈ segs, Says conv inn out innSeq outSeq seg)
    (houtSeq : out.sent.length < outSeq + 2 ^ 29) (hinnSeq : inn.sent.length < innSeq + 2 ^ 29) :
    (∃ acked got : Set ℕ, Stream.Sound { out with acked := acked } ∧
      Stream.Sound { inn with got := got } ∧
      Endpoint conv user (inputSegs st segs).kcp { out with acked := acked }
        { inn with got := got } written taken) ∧
      ∀ fuel, pushRejectedLoop fuel st (wires segs) = false := by
  induction segs generalizing st out inn with
  | nil =>
    refine ⟨⟨out.acked, inn.got, hout, hinn, h⟩, ?_⟩
    intro fuel
    cases fuel with
    | zero => rfl
    | succ fuel => exact if_pos (by decide)
  | cons seg segs ih =>
    have hseg := hsaid seg List.mem_cons_self
    obtain ⟨acked, got, hout', hinn', h', hwin⟩ := h.inputSeg hout hinn hseg houtSeq hinnSeq
    -- neither stream has grown, so the rest still says true things
    obtain ⟨hrest, hnone⟩ := ih h' hout' hinn'
      (fun s hs ↦ (hsaid s (List.mem_cons_of_mem _ hs)).mono ⟨List.prefix_refl _, subset_rfl⟩
        ⟨List.prefix_refl _, subset_rfl⟩) houtSeq hinnSeq
    refine ⟨hrest, ?_⟩
    intro fuel
    cases fuel with
    | zero => rfl
    | succ fuel =>
      have hlen : ¬(wires (seg :: segs)).length < ikcpOverhead := by
        rw [wires_cons, List.length_append, IkcpSeg.length_wire]
        omega
      have hdecode := decodeHeader_wires seg segs []
      rw [List.append_nil, List.append_nil] at hdecode
      rw [pushRejectedLoop, if_neg hlen, hdecode]
      dsimp only
      rw [h.framed.conv_eq, hseg.wellFormed.headerError_eq_none (by simp)]
      dsimp only
      rw [hseg.wellFormed.toNat_len, List.take_left, List.drop_left, hnone fuel,
        hseg.wellFormed.header_cmd, Bool.or_false]
      by_cases hpush : seg.cmd = ikcpCmdPush
      · rw [hwin hpush, Bool.not_true, Bool.and_false]
      · rw [decide_eq_false hpush, Bool.false_and]

/-- **A datagram** the peer sent is accepted, and none of its data is rejected. -/
theorem ikcpInput (h : Endpoint conv user kcp out inn written taken) (hout : out.Sound)
    (hinn : inn.Sound) {outSeq innSeq : ℕ} {d : List UInt8}
    (hd : Chunk (Says conv inn out innSeq outSeq) 1400 d)
    (houtSeq : out.sent.length < outSeq + 2 ^ 29) (hinnSeq : inn.sent.length < innSeq + 2 ^ 29) :
    (ikcpInput kcp d).2 = 0 ∧ pushRejected kcp d = false ∧
      ∃ acked got : Set ℕ, Stream.Sound { out with acked := acked } ∧
        Stream.Sound { inn with got := got } ∧
        Endpoint conv user (ikcpInput kcp d).1 { out with acked := acked } { inn with got := got }
          written taken := by
  obtain ⟨segs, hne, hsaid, rfl, -⟩ := hd
  obtain ⟨⟨acked, got, hout', hinn', h'⟩, hnone⟩ :=
    @inputSegs _ _ _ _ _ _ { kcp := kcp } h hout hinn _ _ _ hsaid houtSeq hinnSeq
  have hinput := ikcpInput_wires (fun seg hseg ↦ h.framed.conv_eq ▸ (hsaid seg hseg).wellFormed)
    hne (by decide : ([] : List UInt8).length < _)
  rw [List.append_nil] at hinput
  obtain ⟨hconfig, hsend, hrecv⟩ :=
    inputFinish_sides kcp.sndUna (KcpEcho.inputSegs { kcp := kcp } segs)
  rw [hinput]
  exact ⟨rfl, hnone _, acked, got, hout', hinn', h'.of_sides hconfig hsend hrecv⟩

/-! ### The receive loops -/

theorem ikcpRecv (h : Endpoint conv user kcp out inn written taken) (hinn : inn.Sound)
    {seg : IkcpSeg} {rest : List IkcpSeg} (hqueue : kcp.rcvQueue = seg :: rest) :
    ∃ kcp', ikcpRecv kcp allocSize = (kcp', (seg.data.length : ℤ), seg.data) ∧
      Endpoint conv user kcp' out inn written (taken ++ seg.data) ∧ kcp'.rcvQueue = rest ∧
      seg.data.length ≤ sessionMss := by
  have hmem : ∀ e ∈ seg :: rest, e.frg = 0 ∧ e.data.length ≤ sessionMss := hqueue ▸ h.recv.queue
  obtain ⟨probe, heq⟩ := ikcpRecv_of_settled (h.recv.settled hinn.inv) hqueue
    (hmem seg List.mem_cons_self)
  have hbytes : taken ++ kcp.rcvQueue.flatMap IkcpSeg.data = _ := h.recv.bytes
  have hroom : inn.una + kcp.rcvQueue.length ≤ inn.nxt := h.recv.room
  rw [hqueue] at hbytes hroom
  refine ⟨_, heq, ⟨h.framed.of_frame rfl rfl, h.send, ⟨⟨h.recv.nxt, h.recv.got, fun e he ↦ ?_, ?_,
    ?_⟩, h.recv.buf⟩, h.reports⟩, rfl, (hmem seg List.mem_cons_self).2⟩
  · exact hmem e (List.mem_cons_of_mem _ he)
  · rw [← hbytes, List.flatMap_cons, List.append_assoc]
    rfl
  · exact (Nat.add_le_add_left (Nat.le_succ _) _).trans hroom

theorem drainLoop {fuel : ℕ} (h : Endpoint conv user kcp out inn written taken) (hinn : inn.Sound)
    (hfuel : kcp.rcvQueue.length < fuel) (log : List UInt8) :
    ∃ more, (drainLoop fuel kcp log).2 = log ++ more ∧
      Endpoint conv user (drainLoop fuel kcp log).1 out inn written (taken ++ more) ∧
      (drainLoop fuel kcp log).1.rcvQueue = [] := by
  induction fuel generalizing kcp taken log with
  | zero => exact absurd hfuel (Nat.not_lt_zero _)
  | succ fuel ih =>
    cases hqueue : kcp.rcvQueue with
    | nil =>
      have hstop : KcpEcho.drainLoop (fuel + 1) kcp log = (kcp, log) := by
        rw [KcpEcho.drainLoop, ikcpRecv_of_empty hqueue]
        rfl
      rw [hstop]
      refine ⟨[], ?_, ?_, hqueue⟩ <;> rw [List.append_nil]
      exact h
    | cons seg rest =>
      obtain ⟨kcp', heq, h', hrest, -⟩ := h.ikcpRecv hinn hqueue
      have hgo : KcpEcho.drainLoop (fuel + 1) kcp log
          = KcpEcho.drainLoop fuel kcp' (log ++ seg.data) := by
        rw [KcpEcho.drainLoop, heq]
        exact if_neg (by simp)
      obtain ⟨more, hlog, h'', hempty⟩ := ih h'
        (by rw [hqueue, List.length_cons] at hfuel; rw [hrest]; omega) (log ++ seg.data)
      rw [hgo]
      refine ⟨seg.data ++ more, ?_, ?_, hempty⟩
      · rw [hlog, List.append_assoc]
      · rw [← List.append_assoc]
        exact h''

theorem echoLoop {fuel : ℕ} (h : Endpoint conv user kcp out inn written taken) (hinn : inn.Sound)
    (hfuel : kcp.rcvQueue.length < fuel) (log : EchoLog) :
    ∃ more, (echoLoop fuel kcp log).2 = ⟨log.taken ++ more, log.passed ++ more⟩ ∧
      Endpoint conv user (echoLoop fuel kcp log).1 out inn (written ++ more) (taken ++ more) ∧
      (echoLoop fuel kcp log).1.rcvQueue = [] := by
  induction fuel generalizing kcp written taken log with
  | zero => exact absurd hfuel (Nat.not_lt_zero _)
  | succ fuel ih =>
    cases hqueue : kcp.rcvQueue with
    | nil =>
      have hstop : KcpEcho.echoLoop (fuel + 1) kcp log = (kcp, log) := by
        rw [KcpEcho.echoLoop, ikcpRecv_of_empty hqueue]
        rfl
      rw [hstop]
      refine ⟨[], ?_, ?_, hqueue⟩ <;> rw [List.append_nil, List.append_nil]
      exact h
    | cons seg rest =>
      obtain ⟨kcp', heq, h', hrest, hlen⟩ := h.ikcpRecv hinn hqueue
      -- one segment is far below the size `ikcp_send` takes whole
      have hall : (KcpEcho.ikcpSend kcp' seg.data).2 = seg.data.length :=
        h'.framed.send_eq_length (hlen.trans (by decide))
      have hsent := h'.ikcpSend seg.data
      rw [hall, Int.toNat_natCast, List.take_length] at hsent
      have hrest' : (KcpEcho.ikcpSend kcp' seg.data).1.rcvQueue = rest :=
        (congrArg RecvSide.queue (ikcpSend_frame kcp' seg.data).2).trans hrest
      have hgo : KcpEcho.echoLoop (fuel + 1) kcp log
          = KcpEcho.echoLoop fuel (KcpEcho.ikcpSend kcp' seg.data).1
            ⟨log.taken ++ seg.data, log.passed ++ seg.data⟩ := by
        rw [KcpEcho.echoLoop, heq]
        dsimp only
        rw [if_neg (by simp), hall, if_neg (by simp)]
      obtain ⟨more, hlog, h'', hempty⟩ := ih hsent
        (by rw [hqueue, List.length_cons] at hfuel; rw [hrest']; omega)
        ⟨log.taken ++ seg.data, log.passed ++ seg.data⟩
      rw [hgo]
      refine ⟨seg.data ++ more, ?_, ?_, hempty⟩
      · rw [hlog, List.append_assoc, List.append_assoc]
      · rw [← List.append_assoc, ← List.append_assoc]
        exact h''

/-! ### What the peer does

The streams move under an end while its peer updates or receives a datagram; the end itself does
not change, and still represents them. -/

theorem peer_update (h : Endpoint conv user kcp out inn written taken) (hinn : inn.Sound)
    (granted : Set ℕ) (ds : List (List UInt8)) :
    Endpoint conv user kcp { out with granted := granted } { inn with sent := inn.sent ++ ds }
      written taken where
  framed := h.framed
  send := ⟨h.send.nxt, h.send.una, h.send.buf, h.send.bytes⟩
  recv := by
    refine ⟨⟨h.recv.nxt, h.recv.got, h.recv.queue, ?_, h.recv.room⟩,
      h.recv.buf.mono fun _ _ hcar ↦ hcar.append ds⟩
    change _ = ((inn.sent ++ ds).take inn.nxt).flatten
    rw [List.take_append_of_le_length hinn.inv.nxt_le_length]
    exact h.recv.bytes
  reports := h.reports

/-- The peer has dropped numbers and stored numbers. Its window may have moved past what lies in the
receive queue, unless that is empty. -/
theorem peer_input (h : Endpoint conv user kcp out inn written taken)
    (hidle : kcp.rcvQueue = []) (got : Set ℕ) {acked : Set ℕ}
    (hinn : Stream.Sound { inn with acked := acked }) :
    Endpoint conv user kcp { out with got := got } { inn with acked := acked } written taken where
  framed := h.framed
  send := ⟨h.send.nxt, h.send.una, h.send.buf, h.send.bytes⟩
  recv := by
    refine ⟨⟨h.recv.nxt, h.recv.got, h.recv.queue, h.recv.bytes, ?_⟩, h.recv.buf⟩
    have hchain := hinn.inv.chain
    change _ + kcp.rcvQueue.length ≤ _
    rw [hidle]
    exact hchain.1.trans hchain.2.1
  reports := h.reports

end Endpoint
end Endpoint
end KcpEcho
