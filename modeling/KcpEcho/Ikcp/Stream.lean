import KcpEcho.Ikcp.Sides

/-!
# What the sender does with the bytes it is given

Specifications of `ikcp_send` and of the two loops of `ikcp_flush` and `ikcp_input` that change the
send side, in the form the invariants use: which segments the queues hold afterwards, and which
bytes these are.

The stream-mode clauses are those of this program: with `stream ≠ 0` no segment carries a fragment
number, and `ikcp_send` appends to the byte stream waiting in `snd_queue`.
-/

namespace KcpEcho

/-- The bytes waiting in a send queue. -/
def queueBytes (queue : List (UInt32 × List UInt8)) : List UInt8 := queue.flatMap Prod.snd

@[simp] theorem queueBytes_nil : queueBytes [] = [] := rfl

@[simp] theorem queueBytes_cons (e : UInt32 × List UInt8) (queue : List (UInt32 × List UInt8)) :
    queueBytes (e :: queue) = e.2 ++ queueBytes queue := rfl

@[simp] theorem queueBytes_append (q q' : List (UInt32 × List UInt8)) :
    queueBytes (q ++ q') = queueBytes q ++ queueBytes q' := by
  rw [queueBytes, queueBytes, queueBytes, List.flatMap_append]

/-- A queue of unfragmented segments of at most `mss` bytes. -/
def Unfragmented (mss : ℕ) (queue : List (UInt32 × List UInt8)) : Prop :=
  ∀ e ∈ queue, e.1 = 0 ∧ e.2.length ≤ mss

theorem Unfragmented.append {mss : ℕ} {q q' : List (UInt32 × List UInt8)}
    (h : Unfragmented mss q) (h' : Unfragmented mss q') : Unfragmented mss (q ++ q') := by
  intro e he
  rcases List.mem_append.mp he with he | he
  · exact h e he
  · exact h' e he

/-! ## `ikcp_send` -/

/-- A segment as a send queue holds it. -/
def IkcpSeg.queued (seg : IkcpSeg) : UInt32 × List UInt8 := (seg.frg, seg.data)

theorem fragment_spec {mss : ℕ} {stream : ℤ} (hstream : stream ≠ 0) (n : ℕ) (buffer : List UInt8) :
    Unfragmented mss ((fragment mss stream n buffer).map IkcpSeg.queued) ∧
      queueBytes ((fragment mss stream n buffer).map IkcpSeg.queued) = buffer.take (n * mss) := by
  induction n generalizing buffer with
  | zero => exact ⟨fun _ h ↦ absurd h List.not_mem_nil, by simp [fragment]⟩
  | succ n ih =>
    obtain ⟨hq, hbytes⟩ := ih (buffer.drop mss)
    rw [fragment, List.map_cons]
    refine ⟨fun e he ↦ ?_, ?_⟩
    · rcases List.mem_cons.mp he with rfl | he
      · exact ⟨if_neg hstream, by simp [IkcpSeg.queued]⟩
      · exact hq e he
    · rw [queueBytes_cons, hbytes, IkcpSeg.queued, Nat.succ_mul, Nat.add_comm, List.take_add]

/-- What the streaming branch of `ikcp_send` does: it moves a prefix of the buffer into the send
queue and changes nothing else. -/
theorem extendPrevious_spec (kcp : Ikcpcb) (buffer : List UInt8)
    (hq : Unfragmented kcp.mss.toNat (kcp.sndQueue.map IkcpSeg.queued)) :
    ∃ (queue : List IkcpSeg) (n : ℕ), extendPrevious kcp buffer =
        ({ kcp with sndQueue := queue }, buffer.drop n, n) ∧ n ≤ buffer.length ∧
      Unfragmented kcp.mss.toNat (queue.map IkcpSeg.queued) ∧
      queueBytes (queue.map IkcpSeg.queued) =
        queueBytes (kcp.sndQueue.map IkcpSeg.queued) ++ buffer.take n := by
  unfold extendPrevious
  split
  · exact ⟨kcp.sndQueue, 0, rfl, Nat.zero_le _, hq, by simp⟩
  · rename_i old hlast
    obtain ⟨front, hfront⟩ := List.getLast?_eq_some_iff.mp hlast
    split
    · rename_i hroom
      refine ⟨_, _, rfl, ?_, ?_, ?_⟩
      · split <;> omega
      · rw [hfront, List.dropLast_concat, List.map_append]
        refine Unfragmented.append (fun e he ↦ ?_) (fun e he ↦ ?_)
        · exact hq e (by rw [hfront, List.map_append]; exact List.mem_append_left _ he)
        · rw [List.map_singleton, List.mem_singleton] at he
          subst he
          refine ⟨rfl, ?_⟩
          have hextend : (if buffer.length < kcp.mss.toNat - old.len then buffer.length
              else kcp.mss.toNat - old.len) ≤ kcp.mss.toNat - old.len := by split <;> omega
          simp only [IkcpSeg.len] at hroom hextend
          simp only [IkcpSeg.queued, IkcpSeg.len, List.length_append, List.length_take]
          omega
      · rw [hfront, List.dropLast_concat]
        simp [IkcpSeg.queued]
    · exact ⟨kcp.sndQueue, 0, rfl, Nat.zero_le _, hq, by simp⟩

/-- The number of bytes `ikcp_send` takes for sure in one call: 127 full segments. -/
def sendLimit (mss : ℕ) : ℕ := 127 * mss

/-- The number of segments `ikcp_send` splits `len` bytes into. -/
def segmentCount (mss len : ℕ) : ℕ := if len ≤ mss then 1 else (len + mss - 1) / mss

section SegmentCount

variable {mss : ℕ}

/-- The segments hold the bytes. -/
theorem le_segmentCount_mul (hmss : 0 < mss) (len : ℕ) : len ≤ segmentCount mss len * mss := by
  rw [segmentCount]
  split
  · omega
  · have := Nat.lt_mul_div_succ (len + mss - 1) hmss
    rw [Nat.mul_comm, Nat.add_mul, Nat.one_mul] at this
    omega

theorem segmentCount_pos (hmss : 0 < mss) (len : ℕ) : 0 < segmentCount mss len := by
  rw [segmentCount]
  split
  · exact Nat.one_pos
  · exact Nat.div_pos (by omega) hmss

/-- `ikcp_send` refuses exactly what is longer than `sendLimit`. -/
theorem segmentCount_lt_iff (hmss : 0 < mss) (len : ℕ) :
    segmentCount mss len < ikcpWndRcv.toNat ↔ len ≤ sendLimit mss := by
  rw [segmentCount, sendLimit, show ikcpWndRcv.toNat = 128 from rfl]
  split
  · omega
  · rw [Nat.div_lt_iff_lt_mul hmss]
    omega

end SegmentCount

/-- **`ikcp_send` in stream mode.** It puts a prefix of the buffer behind the bytes already waiting
and changes nothing but the send queue. The prefix has the returned length, and it is the whole
buffer as long as 127 segments hold it; a negative result means it took nothing. -/
theorem ikcpSend_spec {kcp : Ikcpcb} (hstream : kcp.stream ≠ 0) (hmss : 0 < kcp.mss.toNat)
    (hq : Unfragmented kcp.mss.toNat (kcp.sndQueue.map IkcpSeg.queued)) (buffer : List UInt8) :
    ∃ (queue : List IkcpSeg) (n : ℕ), (ikcpSend kcp buffer).1 = { kcp with sndQueue := queue } ∧
      Unfragmented kcp.mss.toNat (queue.map IkcpSeg.queued) ∧
      queueBytes (queue.map IkcpSeg.queued) =
        queueBytes (kcp.sndQueue.map IkcpSeg.queued) ++ buffer.take n ∧
      n = (ikcpSend kcp buffer).2.toNat ∧
      (buffer.length ≤ sendLimit kcp.mss.toNat → (ikcpSend kcp buffer).2 = buffer.length) := by
  -- first the room in the last queued segment, then new segments for the rest
  obtain ⟨queue, n, hext, hn, hq', hbytes⟩ := extendPrevious_spec kcp buffer hq
  unfold ikcpSend
  rw [if_pos hstream, hext]
  dsimp only
  have hdrop : (buffer.drop n).length = buffer.length - n := List.length_drop
  by_cases hdone : (buffer.drop n).length = 0
  · rw [if_pos ⟨hstream, hdone⟩]
    exact ⟨queue, n, rfl, hq', hbytes, by simp, fun _ ↦ by dsimp only; omega⟩
  rw [if_neg (fun h ↦ hdone h.2)]
  set rest := buffer.drop n with hrest
  rw [← segmentCount]
  have hlimit := segmentCount_lt_iff hmss rest.length
  by_cases hmany : segmentCount kcp.mss.toNat rest.length ≥ ikcpWndRcv.toNat
  · -- too many: what fitted into the last queued segment is all it took
    rw [if_pos hmany]
    have hnot : ¬buffer.length ≤ sendLimit kcp.mss.toNat := by
      intro hle
      exact absurd (hlimit.mpr (by omega)) (Nat.not_lt.mpr hmany)
    split
    · exact ⟨queue, n, rfl, hq', hbytes, by simp, fun h ↦ absurd h hnot⟩
    · rename_i hsent
      have hn0 : n = 0 := by
        by_contra hne
        exact hsent ⟨hstream, Nat.pos_of_ne_zero hne⟩
      exact ⟨queue, 0, rfl, hq', by rw [hbytes, hn0], rfl, fun h ↦ absurd h hnot⟩
  · -- the rest fits
    rw [if_neg hmany, if_neg (segmentCount_pos hmss _).ne']
    obtain ⟨hfrag, hfragBytes⟩ := @fragment_spec kcp.mss.toNat _ hstream
      (segmentCount kcp.mss.toNat rest.length) rest
    refine ⟨_, n + rest.length, rfl, ?_, ?_, rfl, fun _ ↦ by dsimp only; omega⟩
    · rw [List.map_append]
      exact hq'.append hfrag
    · rw [List.map_append, queueBytes_append, hbytes, hfragBytes,
        List.take_of_length_le (le_segmentCount_mul hmss _), List.append_assoc, List.take_add,
        ← hrest, List.take_length]

/-- With nothing waiting, a buffer that needs 128 segments or more is refused whole. -/
theorem ikcpSend_of_too_long {kcp : Ikcpcb} (hstream : kcp.stream ≠ 0) (hmss : 0 < kcp.mss.toNat)
    (hempty : kcp.sndQueue = []) {buffer : List UInt8}
    (hlen : sendLimit kcp.mss.toNat < buffer.length) : ikcpSend kcp buffer = (kcp, -2) := by
  have hext : extendPrevious kcp buffer = (kcp, buffer, 0) := by
    rw [extendPrevious, hempty]
    rfl
  have hmany : ¬segmentCount kcp.mss.toNat buffer.length < ikcpWndRcv.toNat := by
    rw [segmentCount_lt_iff hmss]
    exact Nat.not_le.mpr hlen
  unfold ikcpSend
  rw [if_pos hstream, hext]
  dsimp only
  rw [← segmentCount, if_neg (fun h ↦ by omega), if_pos (Nat.not_lt.mp hmany),
    if_neg (fun h ↦ absurd h.2 (lt_irrefl 0))]

/-! ## The window moves up -/

/-- `ikcp_flush` fills the send buffer from the head of the queue, in order; what it moves gets the
control block's conversation and the push command. -/
theorem moveToSndBuf_bodies (cwnd wnd : UInt32) (segs : List IkcpSeg) (kcp : Ikcpcb) :
    (∀ b ∈ (moveToSndBuf cwnd wnd segs kcp).sendSide.buf, b ∈ kcp.sendSide.buf ∨
      (b.conv = kcp.conv ∧ b.cmd = ikcpCmdPush ∧ (b.frg, b.data) ∈ segs.map IkcpSeg.queued)) ∧
    ((moveToSndBuf cwnd wnd segs kcp).sendSide.queue <:+ segs.map IkcpSeg.queued) := by
  induction segs generalizing kcp with
  | nil => exact ⟨fun b hb ↦ .inl hb, List.suffix_refl _⟩
  | cons seg rest ih =>
    rw [moveToSndBuf]
    split
    · obtain ⟨hbuf, hqueue⟩ := ih _
      refine ⟨?_, hqueue.trans (List.suffix_cons _ _)⟩
      intro b hb
      rcases hbuf b hb with hb | ⟨hconv, hcmd, hmem⟩
      · simp only [Ikcpcb.sendSide, List.map_append, List.map_singleton, List.mem_append,
          List.mem_singleton] at hb
        rcases hb with hb | rfl
        · exact .inl hb
        · exact .inr ⟨rfl, rfl, List.mem_cons_self⟩
      · exact .inr ⟨hconv, hcmd, List.mem_cons_of_mem _ hmem⟩
    · exact ⟨fun b hb ↦ .inl hb, List.suffix_refl _⟩

/-! ## The window moves on -/

theorem removeAcked_sublist (sn : UInt32) (segs : List IkcpSeg) :
    (removeAcked sn segs).Sublist segs := by
  induction segs with
  | nil => exact List.Sublist.refl _
  | cons seg rest ih =>
    rw [removeAcked]
    split
    · exact List.sublist_cons_self _ _
    · split
      · exact List.Sublist.refl _
      · exact ih.cons_cons _

/-- An input only takes segments out of the send buffer. -/
structure SendShrinks (kcp kcp' : Ikcpcb) : Prop where
  buf : kcp'.sendSide.buf.Sublist kcp.sendSide.buf
  queue : kcp'.sendSide.queue = kcp.sendSide.queue

namespace SendShrinks

theorem refl (kcp : Ikcpcb) : SendShrinks kcp kcp := ⟨List.Sublist.refl _, rfl⟩

theorem trans {kcp kcp' kcp'' : Ikcpcb} (h : SendShrinks kcp kcp') (h' : SendShrinks kcp' kcp'') :
    SendShrinks kcp kcp'' := ⟨h'.buf.trans h.buf, h'.queue.trans h.queue⟩

theorem of_sendSide {kcp kcp' : Ikcpcb} (h : kcp'.sendSide = kcp.sendSide) :
    SendShrinks kcp kcp' :=
  ⟨h ▸ List.Sublist.refl _, by rw [h]⟩

theorem shrinkBuf (kcp : Ikcpcb) : SendShrinks kcp (ikcpShrinkBuf kcp) := by
  unfold ikcpShrinkBuf
  split <;> exact ⟨List.Sublist.refl _, rfl⟩

theorem parseUna (kcp : Ikcpcb) (una : UInt32) : SendShrinks kcp (ikcpParseUna kcp una) :=
  ⟨((List.dropWhile_suffix _).sublist).map _, rfl⟩

theorem parseAck (kcp : Ikcpcb) (sn : UInt32) : SendShrinks kcp (ikcpParseAck kcp sn) := by
  unfold ikcpParseAck
  split
  · exact refl kcp
  · exact ⟨(removeAcked_sublist _ _).map _, rfl⟩

theorem inputHead (kcp : Ikcpcb) (h : IkcpHeader) : SendShrinks kcp (inputHead kcp h) := by
  have hwnd : SendShrinks kcp { kcp with rmtWnd := h.wnd.toUInt32 } := of_sendSide rfl
  exact hwnd.trans ((parseUna _ h.una).trans (shrinkBuf _))

theorem inputSeg (st : InputState) (h : IkcpHeader) (data : List UInt8) :
    SendShrinks st.kcp (inputSeg st h data).kcp := by
  apply (inputHead st.kcp h).trans
  unfold KcpEcho.inputSeg
  dsimp only
  split_ifs
  · rw [inputAck_kcp]
    exact (of_sendSide (inputRtt_sides _ h.ts).2.1).trans ((parseAck _ _).trans (shrinkBuf _))
  · exact of_sendSide (inputPush_frame _ _ _).2
  · exact of_sendSide rfl
  · exact refl _

theorem inputLoop (fuel : ℕ) (st : InputState) (data : List UInt8) :
    SendShrinks st.kcp (inputLoop fuel st data).1.kcp := by
  induction fuel generalizing st data with
  | zero => exact refl _
  | succ fuel ih =>
    rw [KcpEcho.inputLoop]
    split
    · exact refl _
    · dsimp only
      split
      · exact refl _
      · exact (inputSeg _ _ _).trans (ih _ _)

theorem ikcpInput (kcp : Ikcpcb) (data : List UInt8) :
    SendShrinks kcp (ikcpInput kcp data).1 := by
  have h := inputLoop data.length { kcp := kcp } data
  unfold KcpEcho.ikcpInput
  dsimp only
  split_ifs
  · exact refl kcp
  · exact h
  · exact h.trans (of_sendSide (inputFinish_sides _ _).2.1)

end SendShrinks

end KcpEcho
