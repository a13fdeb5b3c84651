import KcpEcho.Ikcp.Sides

/-!
# Datagrams as concatenations of segments

`ikcp_flush` emits, and `ikcp_input` consumes, concatenations of whole segments. This file proves
the two halves and the round trip between them: every emitted datagram is a nonempty run of
segments no longer than the MTU (`ikcpFlush_chunk`), and feeding such a run to `ikcp_input` applies
`inputSeg` to its segments one by one and returns 0 (`ikcpInput_wires`). Nothing else is accepted
(`ikcpInput_nonneg_iff`).

The packing argument is made once, for an arbitrary property `P` of the segments put into the
buffer. Framing uses it with the header fields alone; the delivery proofs use it again with what a
segment says about the stream.
-/

namespace KcpEcho

/-- A run of segments on the wire. -/
def wires (segs : List IkcpSeg) : List UInt8 := segs.flatMap IkcpSeg.wire

@[simp] theorem wires_nil : wires [] = [] := rfl

@[simp] theorem wires_cons (seg : IkcpSeg) (segs : List IkcpSeg) :
    wires (seg :: segs) = seg.wire ++ wires segs := rfl

@[simp] theorem wires_append (segs segs' : List IkcpSeg) :
    wires (segs ++ segs') = wires segs ++ wires segs' := by
  rw [wires, wires, wires, List.flatMap_append]

/-! ## Emission -/

/-- A datagram made of at least one segment, all of them with property `P`, within the MTU. -/
def Chunk (P : IkcpSeg → Prop) (mtu : ℕ) (d : List UInt8) : Prop :=
  ∃ segs : List IkcpSeg, segs ≠ [] ∧ (∀ seg ∈ segs, P seg) ∧ d = wires segs ∧ d.length ≤ mtu

theorem Chunk.mono {P Q : IkcpSeg → Prop} {mtu : ℕ} {d : List UInt8} (h : Chunk P mtu d)
    (hPQ : ∀ seg, P seg → Q seg) : Chunk Q mtu d := by
  obtain ⟨segs, hne, hsegs, hd, hlen⟩ := h
  exact ⟨segs, hne, fun seg hseg ↦ hPQ seg (hsegs seg hseg), hd, hlen⟩

/-- The invariant of the packing loop: finished datagrams are chunks, and the buffer is a run of
segments that fits the MTU. -/
def FlushBuf.Packed (P : IkcpSeg → Prop) (mtu : ℕ) (fb : FlushBuf) : Prop :=
  (∀ d ∈ fb.out, Chunk P mtu d) ∧
    ∃ segs : List IkcpSeg, (∀ seg ∈ segs, P seg) ∧ fb.buffer = wires segs ∧
      fb.buffer.length ≤ mtu

namespace FlushBuf

variable {P : IkcpSeg → Prop} {mtu : ℕ} {fb : FlushBuf}

theorem Packed.empty : Packed P mtu {} :=
  ⟨fun _ h ↦ absurd h List.not_mem_nil, [], by simp, rfl, Nat.zero_le _⟩

/-- Handing the buffer over keeps every datagram a chunk; an empty buffer is not handed over. -/
theorem Packed.output (h : Packed P mtu fb) : ∀ d ∈ ikcpOutput fb.out fb.buffer, Chunk P mtu d := by
  obtain ⟨hout, segs, hsegs, hbuf, hlen⟩ := h
  intro d hd
  unfold ikcpOutput at hd
  split at hd
  · exact hout d hd
  · rename_i hne
    rcases List.mem_append.mp hd with hd | hd
    · exact hout d hd
    · rw [List.mem_singleton.mp hd]
      refine ⟨segs, ?_, hsegs, hbuf, hlen⟩
      rintro rfl
      exact hne (by rw [hbuf]; rfl)

theorem Packed.put {m : UInt32} (h : Packed P m.toNat fb) {seg : IkcpSeg} (hP : P seg)
    (hfit : ikcpOverhead + seg.len ≤ m.toNat) : Packed P m.toNat (fb.put m seg) := by
  have hwire : seg.wire.length = ikcpOverhead + seg.len := seg.length_wire
  unfold FlushBuf.put
  dsimp only
  split
  · refine ⟨h.output, [seg], by simpa using hP, by simp, ?_⟩
    rw [List.nil_append, hwire]
    exact hfit
  · rename_i hroom
    obtain ⟨hout, segs, hsegs, hbuf, hlen⟩ := h
    refine ⟨hout, segs ++ [seg], ?_, by simp [hbuf], ?_⟩
    · intro s hs
      rcases List.mem_append.mp hs with hs | hs
      · exact hsegs s hs
      · rwa [List.mem_singleton.mp hs]
    · rw [List.length_append, hwire]
      omega

theorem Packed.finish (h : Packed P mtu fb) : ∀ d ∈ fb.finish, Chunk P mtu d := h.output

end FlushBuf

section Flush

variable {P : IkcpSeg → Prop} {mtu : UInt32}

/-- Two segments that differ at most in the number, time and command of the template. -/
def SameTemplate (seg seg' : IkcpSeg) : Prop :=
  seg'.conv = seg.conv ∧ seg'.frg = seg.frg ∧ seg'.wnd = seg.wnd ∧ seg'.una = seg.una ∧
    seg'.data = seg.data

theorem flushAcks_packed (hmtu : ikcpOverhead ≤ mtu.toNat) (acks : List (UInt32 × UInt32))
    {tmpl seg : IkcpSeg} {fb : FlushBuf} (hdata : tmpl.data = []) (hseg : SameTemplate tmpl seg)
    (hcmd : seg.cmd = tmpl.cmd)
    (hacks : ∀ a ∈ acks, ∀ seg', SameTemplate tmpl seg' → seg'.cmd = tmpl.cmd →
      seg'.sn = a.1 → P seg')
    (h : fb.Packed P mtu.toNat) :
    SameTemplate tmpl (flushAcks mtu acks seg fb).1 ∧
      (flushAcks mtu acks seg fb).2.Packed P mtu.toNat := by
  induction acks generalizing seg fb with
  | nil => exact ⟨hseg, h⟩
  | cons a acks ih =>
    refine @ih { seg with sn := a.1, ts := a.2 } _ hseg hcmd
      (fun b hb ↦ hacks b (List.mem_cons_of_mem _ hb)) (h.put ?_ ?_)
    · exact hacks a List.mem_cons_self _ hseg hcmd rfl
    · have : seg.data = [] := hseg.2.2.2.2.trans hdata
      simpa [IkcpSeg.len, this] using hmtu

theorem flushCommand_packed {kcp : Ikcpcb} (hkcp : kcp.mtu = mtu) (hmtu : ikcpOverhead ≤ mtu.toNat)
    (ask cmd : UInt32) {tmpl seg : IkcpSeg} {fb : FlushBuf} (hdata : tmpl.data = [])
    (hseg : SameTemplate tmpl seg)
    (hcmd : ∀ seg', SameTemplate tmpl seg' → seg'.cmd = cmd → P seg')
    (h : fb.Packed P mtu.toNat) :
    SameTemplate tmpl (flushCommand kcp ask cmd seg fb).1 ∧
      (flushCommand kcp ask cmd seg fb).2.Packed P mtu.toNat := by
  unfold flushCommand
  rw [hkcp]
  split
  · refine ⟨hseg, h.put (hcmd _ hseg rfl) ?_⟩
    have : seg.data = [] := hseg.2.2.2.2.trans hdata
    simpa [IkcpSeg.len, this] using hmtu
  · exact ⟨hseg, h⟩

theorem flushData_packed (kcp : Ikcpcb) (resent rtomin wnd : UInt32) (segs : List IkcpSeg)
    {ds : DataState}
    (hsegs : ∀ seg ∈ segs, ∀ seg', seg'.body = seg.body → seg'.una = kcp.rcvNxt →
      P seg' ∧ ikcpOverhead + seg'.len ≤ kcp.mtu.toNat)
    (h : ds.fb.Packed P kcp.mtu.toNat) :
    (flushData kcp resent rtomin wnd segs ds).2.fb.Packed P kcp.mtu.toNat := by
  induction segs generalizing ds with
  | nil => exact h
  | cons seg rest ih =>
    rw [flushData]
    refine ih (fun s hs ↦ hsegs s (List.mem_cons_of_mem _ hs)) ?_
    unfold flushSegment
    dsimp only
    split
    · obtain ⟨hP, hfit⟩ := hsegs seg List.mem_cons_self
        { (sendDecision kcp resent rtomin seg).seg with
          ts := kcp.current, wnd := wnd, una := kcp.rcvNxt }
        (sendDecision_body kcp resent rtomin seg) rfl
      exact h.put hP hfit
    · exact h

/-- The buffer of `ikcp_flush` when the data loop starts: acknowledgements, then probes. -/
def flushHead (kcp : Ikcpcb) : FlushBuf :=
  let (seg, fb) := flushAcks kcp.mtu kcp.acklist (flushTemplate kcp) {}
  let probed := flushProbe { kcp with acklist := [] }
  let (seg, fb) := flushCommand probed ikcpAskSend ikcpCmdWask seg fb
  (flushCommand probed ikcpAskTell ikcpCmdWins seg fb).2

theorem flushHead_packed (kcp : Ikcpcb) (hmtu : ikcpOverhead ≤ kcp.mtu.toNat)
    (hacks : ∀ a ∈ kcp.acklist, ∀ seg, SameTemplate (flushTemplate kcp) seg →
      seg.cmd = ikcpCmdAck → seg.sn = a.1 → P seg)
    (hprobe : ∀ seg, SameTemplate (flushTemplate kcp) seg →
      seg.cmd = ikcpCmdWask ∨ seg.cmd = ikcpCmdWins → P seg) :
    (flushHead kcp).Packed P kcp.mtu.toNat := by
  have hself : SameTemplate (flushTemplate kcp) (flushTemplate kcp) := ⟨rfl, rfl, rfl, rfl, rfl⟩
  obtain ⟨hseg₁, hfb₁⟩ := flushAcks_packed hmtu kcp.acklist rfl hself rfl hacks
    FlushBuf.Packed.empty
  have hprobed : (flushProbe { kcp with acklist := [] }).mtu = kcp.mtu :=
    congrArg IkcpConfig.mtu (flushProbe_sides _).1
  obtain ⟨hseg₂, hfb₂⟩ := flushCommand_packed hprobed hmtu ikcpAskSend ikcpCmdWask rfl hseg₁
    (fun s hs hc ↦ hprobe s hs (.inl hc)) hfb₁
  exact (flushCommand_packed hprobed hmtu ikcpAskTell ikcpCmdWins rfl hseg₂
    (fun s hs hc ↦ hprobe s hs (.inr hc)) hfb₂).2

/-- The datagrams are what the data loop makes of `flushHead`. -/
theorem exists_ikcpFlush_snd {kcp : Ikcpcb} (h : kcp.updated ≠ 0) :
    ∃ resent rtomin wnd xmit state, (ikcpFlush kcp).2 =
      (flushData (flushMoved kcp) resent rtomin wnd (flushMoved kcp).sndBuf
        { fb := flushHead kcp, xmit := xmit, state := state }).2.fb.finish := by
  rw [ikcpFlush, if_neg h]
  exact ⟨_, _, _, _, _, rfl⟩

/-- **What `ikcp_flush` emits.** Every datagram is a chunk of acknowledgements, window probes and
segments of the send buffer, whatever else the segments are known to satisfy. -/
theorem ikcpFlush_chunk (kcp : Ikcpcb) (hmtu : ikcpOverhead ≤ kcp.mtu.toNat)
    (hacks : ∀ a ∈ kcp.acklist, ∀ seg, SameTemplate (flushTemplate kcp) seg →
      seg.cmd = ikcpCmdAck → seg.sn = a.1 → P seg)
    (hprobe : ∀ seg, SameTemplate (flushTemplate kcp) seg →
      seg.cmd = ikcpCmdWask ∨ seg.cmd = ikcpCmdWins → P seg)
    (hdata : ∀ seg, seg.body ∈ (flushMoved kcp).sendSide.buf → seg.una = kcp.rcvNxt →
      P seg ∧ ikcpOverhead + seg.len ≤ kcp.mtu.toNat) :
    ∀ d ∈ (ikcpFlush kcp).2, Chunk P kcp.mtu.toNat d := by
  by_cases hupd : kcp.updated = 0
  · rw [ikcpFlush_of_not_updated hupd]
    exact fun _ h ↦ absurd h List.not_mem_nil
  obtain ⟨resent, rtomin, wnd, xmit, state, hout⟩ := exists_ikcpFlush_snd hupd
  have hmoved : (flushMoved kcp).mtu = kcp.mtu := congrArg IkcpConfig.mtu (flushMoved_frame kcp).1
  have hrcv : (flushMoved kcp).rcvNxt = kcp.rcvNxt := congrArg RecvSide.nxt (flushMoved_frame kcp).2
  have hhead := flushHead_packed kcp hmtu hacks hprobe
  rw [hout, ← hmoved]
  rw [← hmoved] at hhead
  refine (flushData_packed (flushMoved kcp) resent rtomin wnd _ ?_ hhead).finish
  intro s hs s' hbody huna
  rw [hmoved]
  exact hdata s' (by rw [hbody]; exact List.mem_map_of_mem hs) (huna.trans hrcv)

end Flush

/-! ## Consumption -/

/-- A segment `ikcp_input` accepts on a control block of conversation `conv`. -/
structure IkcpSeg.WellFormed (conv : UInt32) (seg : IkcpSeg) : Prop where
  conv_eq : seg.conv = conv
  cmd_mem : seg.cmd = ikcpCmdPush ∨ seg.cmd = ikcpCmdAck ∨ seg.cmd = ikcpCmdWask ∨
    seg.cmd = ikcpCmdWins
  len_lt : seg.data.length < 2 ^ 31

namespace IkcpSeg.WellFormed

variable {conv : UInt32} {seg : IkcpSeg}

theorem toNat_len (h : seg.WellFormed conv) : seg.header.len.toNat = seg.data.length := by
  have := h.len_lt
  simp only [IkcpSeg.header, IkcpSeg.len, UInt32.toNat_ofNat']
  exact Nat.mod_eq_of_lt (by omega)

/-- The four commands survive the cut to one byte. -/
theorem header_cmd (h : seg.WellFormed conv) : seg.header.cmd.toUInt32 = seg.cmd := by
  rcases h.cmd_mem with h | h | h | h <;> simp only [IkcpSeg.header, h] <;> decide

theorem headerError_eq_none (h : seg.WellFormed conv) {size : ℕ} (hsize : seg.data.length ≤ size) :
    headerError conv seg.header size = none := by
  have hlen := h.toNat_len
  have hlt := h.len_lt
  have hconv : seg.header.conv = conv := h.conv_eq
  rw [headerError, if_neg (not_not.mpr hconv), hlen, if_neg (by omega), h.header_cmd, if_neg]
  rintro ⟨h1, h2, h3, h4⟩
  rcases h.cmd_mem with h | h | h | h <;> contradiction

end IkcpSeg.WellFormed

/-- What `ikcp_input` does with the segments of a well-formed datagram. -/
def inputSegs (st : InputState) (segs : List IkcpSeg) : InputState :=
  segs.foldl (fun st seg ↦ inputSeg st seg.header seg.data) st

@[simp] theorem inputSegs_nil (st : InputState) : inputSegs st [] = st := rfl

@[simp] theorem inputSegs_cons (st : InputState) (seg : IkcpSeg) (segs : List IkcpSeg) :
    inputSegs st (seg :: segs) = inputSegs (inputSeg st seg.header seg.data) segs := rfl

theorem inputSeg_conv (st : InputState) (h : IkcpHeader) (data : List UInt8) :
    (inputSeg st h data).kcp.conv = st.kcp.conv :=
  congrArg IkcpConfig.conv (inputSeg_config st h data)

theorem decodeHeader_wires (seg : IkcpSeg) (segs : List IkcpSeg) (stray : List UInt8) :
    decodeHeader (wires (seg :: segs) ++ stray)
      = (seg.header, seg.data ++ (wires segs ++ stray)) := by
  rw [wires_cons, IkcpSeg.wire, List.append_assoc, List.append_assoc, decodeHeader_encode]

theorem inputLoop_wires {conv : UInt32} (segs : List IkcpSeg) {stray : List UInt8}
    (hsegs : ∀ seg ∈ segs, seg.WellFormed conv) (hstray : stray.length < ikcpOverhead) (fuel : ℕ)
    (st : InputState) (hconv : st.kcp.conv = conv) (hfuel : (wires segs).length ≤ fuel) :
    inputLoop fuel st (wires segs ++ stray) = (inputSegs st segs, 0) := by
  induction segs generalizing fuel st with
  | nil =>
    cases fuel with
    | zero => rfl
    | succ fuel => rw [wires_nil, List.nil_append, inputLoop, if_pos hstray, inputSegs_nil]
  | cons seg segs ih =>
    have hseg := hsegs seg List.mem_cons_self
    have hlen : (wires (seg :: segs)).length
        = ikcpOverhead + seg.data.length + (wires segs).length := by
      rw [wires_cons, List.length_append, IkcpSeg.length_wire]
    obtain ⟨fuel, rfl⟩ : ∃ n, fuel = n + 1 :=
      ⟨fuel - 1, by rw [hlen, ikcpOverhead] at hfuel; omega⟩
    rw [inputLoop, if_neg (by rw [List.length_append]; omega), decodeHeader_wires]
    dsimp only
    rw [hconv, hseg.headerError_eq_none (by simp)]
    dsimp only
    rw [hseg.toNat_len, List.take_left, List.drop_left,
      ih (fun s hs ↦ hsegs s (List.mem_cons_of_mem _ hs)) fuel _
        ((inputSeg_conv _ _ _).trans hconv) (by rw [hlen, ikcpOverhead] at hfuel; omega),
      inputSegs_cons]

/-- **Round trip.** A control block takes a nonempty run of well-formed segments of its own
conversation one segment at a time, and returns 0. Fewer bytes than a header behind the last
segment are ignored. -/
theorem ikcpInput_wires {kcp : Ikcpcb} {segs : List IkcpSeg} {stray : List UInt8}
    (hsegs : ∀ seg ∈ segs, seg.WellFormed kcp.conv) (hne : segs ≠ [])
    (hstray : stray.length < ikcpOverhead) :
    ikcpInput kcp (wires segs ++ stray) =
      (inputFinish kcp.sndUna (inputSegs { kcp := kcp } segs), 0) := by
  have hlen : ikcpOverhead ≤ (wires segs ++ stray).length := by
    obtain ⟨seg, rest, rfl⟩ := List.exists_cons_of_ne_nil hne
    rw [List.length_append, wires_cons, List.length_append, IkcpSeg.length_wire]
    omega
  rw [ikcpInput, if_neg (by omega), inputLoop_wires segs hsegs hstray _ _ rfl (by simp)]
  rfl

/-! ## What is accepted -/

/-- A datagram `ikcp_input` accepts on a control block of conversation `conv`. -/
def Acceptable (conv : UInt32) (data : List UInt8) : Prop :=
  ∃ (segs : List IkcpSeg) (stray : List UInt8), segs ≠ [] ∧
    (∀ seg ∈ segs, seg.WellFormed conv) ∧ stray.length < ikcpOverhead ∧ data = wires segs ++ stray

theorem headerError_neg {conv : UInt32} {h : IkcpHeader} {size : ℕ} {err : ℤ}
    (herr : headerError conv h size = some err) : err < 0 := by
  unfold headerError at herr
  split_ifs at herr <;> cases herr <;> decide

/-- A header without error, with the bytes it announces, is a well-formed segment on the wire. -/
theorem wellFormed_of_headerError {conv : UInt32} {data : List UInt8}
    (hlen : ikcpOverhead ≤ data.length)
    (h : headerError conv (decodeHeader data).1 (decodeHeader data).2.length = none) :
    ∃ seg : IkcpSeg, seg.WellFormed conv ∧
      data = seg.wire ++ (decodeHeader data).2.drop (decodeHeader data).1.len.toNat := by
  have hround := encode_decodeHeader hlen
  unfold headerError at h
  split_ifs at h with hconv hsize hcmd
  have hdata : ((decodeHeader data).2.take (decodeHeader data).1.len.toNat).length
      = (decodeHeader data).1.len.toNat := List.length_take_of_le (by omega)
  have hheader : ((decodeHeader data).1.segment
      ((decodeHeader data).2.take (decodeHeader data).1.len.toNat)).header
        = (decodeHeader data).1 := by
    simp only [IkcpSeg.header, IkcpHeader.segment, IkcpSeg.len, hdata]
    simp
  refine ⟨(decodeHeader data).1.segment
    ((decodeHeader data).2.take (decodeHeader data).1.len.toNat),
    ⟨not_not.mp hconv, ?_, ?_⟩, ?_⟩
  · by_contra hne
    simp only [not_or] at hne
    exact hcmd hne
  · have : ((decodeHeader data).1.segment
      ((decodeHeader data).2.take (decodeHeader data).1.len.toNat)).data.length
        = (decodeHeader data).1.len.toNat := hdata
    omega
  · rw [IkcpSeg.wire, ikcpEncodeSeg_eq, hheader]
    simp only [IkcpHeader.segment, List.append_assoc, List.take_append_drop]
    exact hround.symm

theorem inputLoop_nonneg {conv : UInt32} (fuel : ℕ) (st : InputState) (data : List UInt8)
    (hconv : st.kcp.conv = conv) (hfuel : data.length ≤ fuel)
    (h : 0 ≤ (inputLoop fuel st data).2) :
    ∃ (segs : List IkcpSeg) (stray : List UInt8), (∀ seg ∈ segs, seg.WellFormed conv) ∧
      stray.length < ikcpOverhead ∧ data = wires segs ++ stray := by
  induction fuel generalizing st data with
  | zero => exact ⟨[], data, by simp, by rw [ikcpOverhead]; omega, rfl⟩
  | succ fuel ih =>
    rw [inputLoop] at h
    split at h
    · exact ⟨[], data, by simp, ‹_›, rfl⟩
    · rename_i hlen
      have hlen : ikcpOverhead ≤ data.length := not_lt.mp hlen
      dsimp only at h
      cases herr : headerError st.kcp.conv (decodeHeader data).1 (decodeHeader data).2.length with
      | some err =>
        rw [herr] at h
        exact absurd h (not_le.mpr (headerError_neg herr))
      | none =>
        rw [herr] at h
        -- the segment that has just been decoded, and those of the rest
        obtain ⟨seg, hseg, hdata⟩ := wellFormed_of_headerError hlen (hconv ▸ herr)
        have hrest := length_decodeHeader_snd data
        obtain ⟨segs, stray, hsegs, hstray, hsplit⟩ := ih _ _ ((inputSeg_conv _ _ _).trans hconv)
          (by rw [List.length_drop, hrest, ikcpOverhead]; omega) h
        refine ⟨seg :: segs, stray, fun s hs ↦ ?_, hstray, ?_⟩
        · rcases List.mem_cons.mp hs with rfl | hs
          · exact hseg
          · exact hsegs s hs
        · rw [wires_cons, List.append_assoc, ← hsplit]
          exact hdata

/-- **Acceptance.** Whether `ikcp_input` accepts a datagram depends on its bytes and the
conversation number alone: it must consist of complete segments of that conversation, at least
one, and fewer bytes than a header behind them. -/
theorem ikcpInput_nonneg_iff (kcp : Ikcpcb) (data : List UInt8) :
    0 ≤ (ikcpInput kcp data).2 ↔ Acceptable kcp.conv data := by
  constructor
  · intro h
    unfold ikcpInput at h
    split at h
    · exact absurd h (by norm_num)
    · rename_i hlen
      dsimp only at h
      split at h
      · exact absurd h (not_le.mpr ‹_›)
      · rename_i hret
        obtain ⟨segs, stray, hsegs, hstray, rfl⟩ :=
          inputLoop_nonneg data.length { kcp := kcp } data rfl le_rfl (not_lt.mp hret)
        refine ⟨segs, stray, ?_, hsegs, hstray, rfl⟩
        rintro rfl
        rw [wires_nil, List.nil_append] at hlen
        exact hlen hstray
  · rintro ⟨segs, stray, hne, hsegs, hstray, rfl⟩
    rw [ikcpInput_wires hsegs hne hstray]

theorem ikcpInput_neg_iff (kcp : Ikcpcb) (data : List UInt8) :
    (ikcpInput kcp data).2 < 0 ↔ ¬Acceptable kcp.conv data := by
  rw [← ikcpInput_nonneg_iff, not_le]

end KcpEcho
