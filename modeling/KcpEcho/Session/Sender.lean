import KcpEcho.Base.Enumeration
import KcpEcho.Base.SelectiveRepeat
import KcpEcho.Session.Usage

/-!
# The sending end of a stream

How the send side of a control block represents the sending end of a `Link`: the payload of every
number ever assigned is in `sent`, and the block holds the residues of its length and of the window
start, a segment for each number not yet acknowledged, and the bytes that wait for a number.

Three operations move it: `ikcp_send` puts bytes behind the waiting ones, `ikcp_flush` gives
numbers to the head of the queue while the window is open (`Link.Inv.push`), and an acknowledgement
takes numbers out of the buffer (`Link.Inv.ack`).
-/

namespace KcpEcho

open SelectiveRepeat

/-! ## Segments of a stream -/

/-- One direction of a session: each number carries the data of one segment. -/
abbrev Stream := Link (List UInt8)

/-- The send and receive window of a configured block. -/
def sessionWindow : ℕ := 1024

/-- A segment that carries number `k` of a stream. -/
structure Carries (sent : List (List UInt8)) (k : ℕ) (b : SegBody) : Prop where
  sn : b.sn = UInt32.ofNat k
  frg : b.frg = 0
  data : sent[k]? = some b.data

theorem Carries.lt_length {sent : List (List UInt8)} {k : ℕ} {b : SegBody}
    (h : Carries sent k b) : k < sent.length := (List.getElem?_eq_some_iff.mp h.data).1

theorem Carries.append {sent : List (List UInt8)} {k : ℕ} {b : SegBody} (h : Carries sent k b)
    (more : List (List UInt8)) : Carries (sent ++ more) k b :=
  ⟨h.sn, h.frg, by rw [List.getElem?_append_left h.lt_length, h.data]⟩

/-- The send side of a block represents the sending end of a stream; `written` is all that was
handed to `ikcp_send` and taken. -/
structure SendSide.Represents (side : SendSide) (l : Stream) (written : List UInt8) : Prop where
  nxt : side.nxt = UInt32.ofNat l.sent.length
  una : side.una = UInt32.ofNat l.una
  buf : Enumerates (Carries l.sent) l.unacked side.buf
  bytes : written = l.sent.flatten ++ queueBytes side.queue

/-! ## Acknowledgements -/

section Acknowledge

variable {sent : List (List UInt8)} {s : Set ℕ} {segs : List IkcpSeg}

theorem enumerates_dropWhile (h : Enumerates (Carries sent) s (segs.map IkcpSeg.body)) {u : ℕ}
    (hnear : ∀ k ∈ s, Serial.Near (2 ^ 31) u k) :
    Enumerates (Carries sent) (s \ {k | k < u})
      ((segs.dropWhile fun seg ↦ itimediff (UInt32.ofNat u) seg.sn > 0).map IkcpSeg.body) := by
  induction segs generalizing s with
  | nil =>
    rw [h.eq_empty, Set.empty_sdiff]
    exact .nil
  | cons seg rest ih =>
    obtain ⟨k, hk, hle, hcar, htail⟩ := h.uncons
    have hsn : seg.sn = UInt32.ofNat k := hcar.sn
    have hdiff := itimediff_ofNat (hnear k hk)
    rw [List.dropWhile_cons, hsn, hdiff]
    by_cases hku : k < u
    · rw [if_pos (decide_eq_true (by omega))]
      exact .drop_head hku (ih htail fun j hj ↦ hnear j hj.1)
    · -- the scan stops, and nothing behind the head is below `u` either
      rw [if_neg (by rw [decide_eq_true_eq]; omega)]
      refine h.of_eq (sdiff_eq_left.mpr (Set.disjoint_left.mpr ?_)).symm
      intro j hj hju
      exact hku ((hle j hj).trans_lt hju)

theorem enumerates_removeAcked (h : Enumerates (Carries sent) s (segs.map IkcpSeg.body)) {k : ℕ}
    (hnear : ∀ j ∈ s, Serial.Near (2 ^ 31) k j) :
    Enumerates (Carries sent) (s \ {k})
      ((removeAcked (UInt32.ofNat k) segs).map IkcpSeg.body) := by
  induction segs generalizing s with
  | nil =>
    rw [h.eq_empty, Set.empty_sdiff]
    exact .nil
  | cons seg rest ih =>
    obtain ⟨j, hj, hle, hcar, htail⟩ := h.uncons
    have hsn : seg.sn = UInt32.ofNat j := hcar.sn
    have hdiff := itimediff_ofNat (hnear j hj)
    have heq := ofNat32_inj ((hnear j hj).mono (by norm_num : 2 ^ 31 ≤ 2 ^ 32))
    rw [removeAcked, hsn, hdiff]
    rcases lt_trichotomy k j with hlt | rfl | hgt
    · rw [if_neg (fun h ↦ hlt.ne (heq.mp h)), if_pos (by omega)]
      refine h.of_eq (Set.sdiff_singleton_eq_self ?_).symm
      intro hk
      exact absurd (hle k hk) (not_le.mpr hlt)
    · rw [if_pos rfl]
      exact htail
    · rw [if_neg (fun h ↦ hgt.ne' (heq.mp h)), if_neg (by omega)]
      exact .recons hj hle hcar hgt.ne (ih htail fun i hi ↦ hnear i hi.1)

end Acknowledge

section Sender

variable {kcp : Ikcpcb} {l : Stream} {written : List UInt8}

theorem represents_ikcpShrinkBuf (hl : l.Inv sessionWindow)
    (hnxt : kcp.sendSide.nxt = UInt32.ofNat l.sent.length)
    (hbuf : Enumerates (Carries l.sent) l.unacked kcp.sendSide.buf)
    (hbytes : written = l.sent.flatten ++ queueBytes kcp.sendSide.queue) :
    (ikcpShrinkBuf kcp).sendSide.Represents l written := by
  have hbuf' : Enumerates (Carries l.sent) l.unacked (kcp.sndBuf.map IkcpSeg.body) := hbuf
  unfold ikcpShrinkBuf
  split
  · rename_i seg rest heq
    rw [heq] at hbuf'
    obtain ⟨k, hk, hle, hcar, -⟩ := hbuf'.uncons
    refine ⟨hnxt, ?_, hbuf, hbytes⟩
    rw [Link.Inv.una_eq_of_least hk hle]
    exact hcar.sn
  · rename_i heq
    rw [heq] at hbuf'
    refine ⟨hnxt, ?_, hbuf, hbytes⟩
    rw [hl.una_eq_length hbuf'.eq_empty]
    exact hnxt

/-- **A cumulative acknowledgement** the peer is entitled to. -/
theorem SendSide.Represents.inputUna (h : kcp.sendSide.Represents l written)
    (hl : l.Inv sessionWindow) {u : ℕ} (hu : ∀ k < u, k ∈ l.granted)
    (hnear : l.sent.length ≤ u + 2 ^ 30) :
    (ikcpShrinkBuf (ikcpParseUna kcp (UInt32.ofNat u))).sendSide.Represents
      { l with acked := l.acked ∪ {k | k < u} } written := by
  have hlen : u ≤ l.sent.length := by
    by_contra hlt
    exact hl.length_notMem_granted (hu _ (not_le.mp hlt))
  refine represents_ikcpShrinkBuf (hl.ack hu) h.nxt ?_ h.bytes
  refine (enumerates_dropWhile h.buf fun k hk ↦ ?_).of_eq ?_
  · have hk := hl.mem_unacked_bounds hk
    rw [sessionWindow] at hk
    constructor <;> omega
  · ext k
    simp only [Link.unacked, Set.mem_sdiff, Set.mem_ofPred_eq, Set.mem_union, not_or, and_assoc]

/-- **A selective acknowledgement** the peer is entitled to. -/
theorem SendSide.Represents.inputAck (h : kcp.sendSide.Represents l written)
    (hl : l.Inv sessionWindow) {k : ℕ} (hk : k ∈ l.granted)
    (hnear : l.sent.length ≤ k + 2 ^ 30 + 2 ^ 12) :
    (ikcpShrinkBuf (ikcpParseAck kcp (UInt32.ofNat k))).sendSide.Represents
      { l with acked := l.acked ∪ {k} } written := by
  have hlt : k < l.sent.length := hl.got_sent k (hl.granted_got hk)
  have hwindow := hl.window
  have huna := hl.chain
  rw [sessionWindow] at hwindow
  have hacked := hl.ack (Set.singleton_subset_iff.mpr hk)
  have hset : l.unacked \ {k} = Link.unacked { l with acked := l.acked ∪ {k} } := by
    ext j
    simp only [Link.unacked, Set.mem_sdiff, Set.mem_ofPred_eq, Set.mem_union, not_or, and_assoc]
  have hbelow : itimediff (UInt32.ofNat k) kcp.sndUna = (k : ℤ) - l.una := by
    rw [show kcp.sndUna = UInt32.ofNat l.una from h.una]
    exact itimediff_ofNat (by constructor <;> omega)
  have habove : itimediff (UInt32.ofNat k) kcp.sndNxt = (k : ℤ) - l.sent.length := by
    rw [show kcp.sndNxt = UInt32.ofNat l.sent.length from h.nxt]
    exact itimediff_ofNat (by constructor <;> omega)
  rw [ikcpParseAck, hbelow, habove]
  by_cases hold : k < l.una
  · -- an old number has left the buffer already
    rw [if_pos (.inl (by omega))]
    refine represents_ikcpShrinkBuf hacked h.nxt (h.buf.of_eq ?_) h.bytes
    rw [← hset, Set.sdiff_singleton_eq_self fun hmem ↦ ?_]
    exact hmem.2 (mem_of_lt_first hold)
  · rw [if_neg (by omega)]
    refine represents_ikcpShrinkBuf hacked h.nxt ?_ h.bytes
    refine (enumerates_removeAcked h.buf ?_).of_eq hset
    intro j hj
    have hj := hl.mem_unacked_bounds hj
    rw [sessionWindow] at hj
    constructor <;> omega

/-! ## New numbers -/

theorem unacked_push (hl : l.Inv sessionWindow) (d : List UInt8) :
    Link.unacked { l with sent := l.sent ++ [d] } = insert l.sent.length l.unacked := by
  ext k
  simp only [Link.unacked, List.length_append, List.length_singleton, Set.mem_insert_iff,
    Set.mem_ofPred_eq]
  constructor
  · intro hk
    by_cases hlen : k = l.sent.length
    · exact .inl hlen
    · exact .inr ⟨by omega, hk.2⟩
  · rintro (rfl | hk)
    · exact ⟨by omega, hl.length_notMem_acked⟩
    · exact ⟨by omega, hk.2⟩

/-- The segment `ikcp_flush` makes of the head of the queue. -/
def numbered (kcp : Ikcpcb) (wnd : UInt32) (newseg : IkcpSeg) : IkcpSeg :=
  { newseg with
    conv := kcp.conv
    cmd := ikcpCmdPush
    wnd := wnd
    ts := kcp.current
    sn := kcp.sndNxt
    una := kcp.rcvNxt
    resendts := kcp.current
    rto := kcp.rxRto.toUInt32
    fastack := 0
    xmit := 0 }

theorem moveToSndBuf_cons (cwnd wnd : UInt32) (seg : IkcpSeg) (rest : List IkcpSeg)
    (kcp : Ikcpcb) :
    moveToSndBuf cwnd wnd (seg :: rest) kcp =
      if itimediff kcp.sndNxt (kcp.sndUna + cwnd) < 0 then
        moveToSndBuf cwnd wnd rest { kcp with
          sndBuf := kcp.sndBuf ++ [numbered kcp wnd seg], sndNxt := kcp.sndNxt + 1 }
      else { kcp with sndQueue := seg :: rest } := rfl

theorem represents_push (wnd : UInt32) {seg : IkcpSeg} {rest : List IkcpSeg}
    (hl : l.Inv sessionWindow)
    (h : ({ kcp with sndQueue := seg :: rest } : Ikcpcb).sendSide.Represents l written)
    (hfrg : seg.frg = 0) :
    ({ kcp with
      sndQueue := rest
      sndBuf := kcp.sndBuf ++ [numbered kcp wnd seg]
      sndNxt := kcp.sndNxt + 1 } : Ikcpcb).sendSide.Represents
        { l with sent := l.sent ++ [seg.data] } written where
  nxt := by
    have hnxt : kcp.sndNxt = UInt32.ofNat l.sent.length := h.nxt
    rw [List.length_append, List.length_singleton, UInt32.ofNat_add, ← hnxt]
    rfl
  una := h.una
  buf := by
    have hnew : Carries (l.sent ++ [seg.data]) l.sent.length (numbered kcp wnd seg).body :=
      ⟨h.nxt, hfrg, List.getElem?_concat_length⟩
    have hbuf := (h.buf.mono fun _ _ hcar ↦ hcar.append [seg.data]).concat (fun j hj ↦ hj.1) hnew
    rw [unacked_push hl, Ikcpcb.sendSide, List.map_append]
    exact hbuf
  bytes := by
    rw [h.bytes, List.flatten_append, List.flatten_singleton, List.append_assoc]
    rfl

/-- **`ikcp_flush` opens new numbers** in order, only inside the window: the stream grows by the
data of the segments that left the queue. -/
theorem represents_moveToSndBuf {cwnd : UInt32} (hcwnd : cwnd.toNat ≤ sessionWindow) (wnd : UInt32)
    {segs : List IkcpSeg} (hl : l.Inv sessionWindow)
    (h : ({ kcp with sndQueue := segs } : Ikcpcb).sendSide.Represents l written)
    (hq : Unfragmented sessionMss (segs.map IkcpSeg.queued)) :
    ∃ ds : List (List UInt8), Link.Inv sessionWindow { l with sent := l.sent ++ ds } ∧
      (∀ d ∈ ds, d.length ≤ sessionMss) ∧
      (moveToSndBuf cwnd wnd segs kcp).sendSide.Represents { l with sent := l.sent ++ ds } written ∧
      (moveToSndBuf cwnd wnd segs kcp).sndQueue.length + ds.length = segs.length := by
  induction segs generalizing kcp l with
  | nil =>
    refine ⟨[], ?_, fun d hd ↦ absurd hd List.not_mem_nil, ?_, rfl⟩ <;> rw [List.append_nil]
    · exact hl
    · exact h
  | cons seg rest ih =>
    have hwindow := hl.window
    have hchain := hl.chain
    -- the wrapping test of the source in true numbers
    have hroom : itimediff kcp.sndNxt (kcp.sndUna + cwnd)
        = (l.sent.length : ℤ) - (l.una + cwnd.toNat : ℕ) := by
      have hnxt : kcp.sndNxt = UInt32.ofNat l.sent.length := h.nxt
      have huna : kcp.sndUna = UInt32.ofNat l.una := h.una
      rw [sessionWindow] at hcwnd hwindow
      rw [hnxt, huna, ← @UInt32.ofNat_toNat cwnd, ← UInt32.ofNat_add, UInt32.ofNat_toNat]
      exact itimediff_ofNat (by constructor <;> omega)
    rw [moveToSndBuf_cons, hroom]
    split
    · -- the segment gets the next number, and its data joins the stream
      have hseg := hq _ List.mem_cons_self
      have hpush := hl.push seg.data (by omega)
      obtain ⟨ds, hl', hds, hrep, hlen⟩ := @ih { kcp with
        sndBuf := kcp.sndBuf ++ [numbered kcp wnd seg], sndNxt := kcp.sndNxt + 1 } _ hpush
          (represents_push wnd hl h hseg.1) (fun e he ↦ hq e (List.mem_cons_of_mem _ he))
      rw [List.append_assoc, List.singleton_append] at hl' hrep
      refine ⟨seg.data :: ds, hl', fun d hd ↦ ?_, hrep, ?_⟩
      · rcases List.mem_cons.mp hd with rfl | hd
        · exact hseg.2
        · exact hds d hd
      · rw [List.length_cons, List.length_cons, ← hlen]
        rfl
    · refine ⟨[], ?_, fun d hd ↦ absurd hd List.not_mem_nil, ?_, rfl⟩ <;> rw [List.append_nil]
      · exact hl
      · exact h

theorem flushCwnd_le (kcp : Ikcpcb) : (flushCwnd kcp).toNat ≤ kcp.sndWnd.toNat := by
  have himin : ∀ a b : UInt32, (imin a b).toNat ≤ a.toNat ∧ (imin a b).toNat ≤ b.toNat := by
    intro a b
    unfold imin
    split
    · exact ⟨le_rfl, UInt32.le_iff_toNat_le.mp ‹_›⟩
    · exact ⟨(UInt32.lt_iff_toNat_lt.mp (UInt32.not_le.mp ‹_›)).le, le_rfl⟩
  unfold flushCwnd
  dsimp only
  split
  · exact (himin _ _).2.trans (himin _ _).1
  · exact (himin _ _).1

variable {conv : UInt32} {user : Ptr}

theorem SendSide.Represents.flushMoved (h : kcp.sendSide.Represents l written)
    (hf : Framed conv user kcp) (hl : l.Inv sessionWindow) :
    ∃ ds : List (List UInt8), Link.Inv sessionWindow { l with sent := l.sent ++ ds } ∧
      (∀ d ∈ ds, d.length ≤ sessionMss) ∧
      (flushMoved kcp).sendSide.Represents { l with sent := l.sent ++ ds } written ∧
      (flushMoved kcp).sndQueue.length + ds.length = kcp.sndQueue.length := by
  obtain ⟨hconfig, hsend, -⟩ := flushProbe_sides { kcp with acklist := [] }
  have hqueue : (flushProbe { kcp with acklist := [] }).sndQueue.map IkcpSeg.queued
      = kcp.sndQueue.map IkcpSeg.queued := congrArg SendSide.queue hsend
  have hlen : (flushProbe { kcp with acklist := [] }).sndQueue.length = kcp.sndQueue.length := by
    simpa using congrArg List.length hqueue
  have hwnd : (flushProbe { kcp with acklist := [] }).sndWnd.toNat = sessionWindow :=
    congrArg (fun c ↦ c.sndWnd.toNat) (hconfig.trans hf.config)
  have hprobe : ({ flushProbe { kcp with acklist := [] } with probe := 0 } : Ikcpcb).sendSide
      = kcp.sendSide := hsend
  rw [← hprobe] at h
  rw [← hlen]
  refine represents_moveToSndBuf ?_ (ikcpWndUnused kcp) hl h ?_
  · rw [← hwnd]
    exact flushCwnd_le _
  · rw [hqueue]
    exact hf.queue

/-- **`ikcp_send`** puts what it takes behind the bytes already waiting. -/
theorem SendSide.Represents.send (h : kcp.sendSide.Represents l written)
    (hf : Framed conv user kcp) (buffer : List UInt8) :
    (ikcpSend kcp buffer).1.sendSide.Represents l
      (written ++ buffer.take (ikcpSend kcp buffer).2.toNat) := by
  obtain ⟨queue, n, heq, -, hbytes, hn, -⟩ := ikcpSend_spec
    (by rw [hf.stream_eq]; decide) (by rw [hf.mss_eq]; decide) (hf.mss_eq ▸ hf.queue) buffer
  rw [heq, ← hn]
  refine ⟨h.nxt, h.una, h.buf, ?_⟩
  calc written ++ buffer.take n
      = l.sent.flatten ++ (queueBytes (kcp.sndQueue.map IkcpSeg.queued) ++ buffer.take n) := by
        rw [h.bytes, List.append_assoc]
        rfl
    _ = l.sent.flatten ++ queueBytes (queue.map IkcpSeg.queued) := by rw [hbytes]

/-- A buffer of no more than 127 segments is taken whole. -/
theorem Framed.send_eq_length (hf : Framed conv user kcp) {buffer : List UInt8}
    (hlen : buffer.length ≤ sendLimit sessionMss) : (ikcpSend kcp buffer).2 = buffer.length := by
  obtain ⟨-, -, -, -, -, -, hall⟩ := ikcpSend_spec
    (by rw [hf.stream_eq]; decide) (by rw [hf.mss_eq]; decide) (hf.mss_eq ▸ hf.queue) buffer
  exact hall (by rwa [hf.mss_eq])

end Sender
end KcpEcho
