import KcpEcho.Ikcp.Framing
import Mathlib.Data.List.Induction

/-!
# When `ikcp_update` flushes

`ikcp_update` is called more often than there is something to do. It keeps a deadline `ts_flush`
and calls `ikcp_flush` only when the deadline is past, or so far off that the clock must have jumped
(`flushDue`). The clock fields move nowhere else: `ikcp_send`, `ikcp_recv`, `ikcp_input` and
`ikcp_flush` itself leave them alone.

`ikcp_check` tells a caller when the next update is needed. Both programs call `ikcp_update` on a
timer instead, with the call of `ikcp_check` commented out. What it promises is proved here: the
updates up to the time it gives can be left out (`updates_of_skipped`).
-/

namespace KcpEcho

/-! ## The clock fields -/

/-- What `ikcp_update` knows about time. -/
structure ClockSide where
  current : UInt32
  tsFlush : UInt32
  updated : UInt32
  deriving DecidableEq

def Ikcpcb.clockSide (kcp : Ikcpcb) : ClockSide := ⟨kcp.current, kcp.tsFlush, kcp.updated⟩

section Frames

variable (kcp : Ikcpcb)

@[simp] theorem ikcpUpdateAck_clock (rtt : Int32) :
    (ikcpUpdateAck kcp rtt).clockSide = kcp.clockSide := by
  unfold ikcpUpdateAck
  split <;> rfl

@[simp] theorem ikcpShrinkBuf_clock : (ikcpShrinkBuf kcp).clockSide = kcp.clockSide := by
  unfold ikcpShrinkBuf
  split <;> rfl

@[simp] theorem ikcpParseAck_clock (sn : UInt32) :
    (ikcpParseAck kcp sn).clockSide = kcp.clockSide := by
  unfold ikcpParseAck
  split <;> rfl

@[simp] theorem ikcpParseFastack_clock (sn ts : UInt32) :
    (ikcpParseFastack kcp sn ts).clockSide = kcp.clockSide := by
  unfold ikcpParseFastack
  split <;> rfl

@[simp] theorem updateCwnd_clock : (updateCwnd kcp).clockSide = kcp.clockSide := by
  unfold updateCwnd
  split
  · dsimp only
    split_ifs <;> rfl
  · rfl

theorem moveAvailableLoop_clock (segs : List IkcpSeg) :
    (moveAvailableLoop segs kcp).clockSide = kcp.clockSide := by
  induction segs generalizing kcp with
  | nil => rfl
  | cons seg rest ih =>
    rw [moveAvailableLoop]
    split
    · exact ih _
    · rfl

@[simp] theorem ikcpParseData_clock (newseg : IkcpSeg) :
    (ikcpParseData kcp newseg).clockSide = kcp.clockSide := by
  unfold ikcpParseData
  split
  · rfl
  · exact moveAvailableLoop_clock _ _

@[simp] theorem inputPush_clock (h : IkcpHeader) (data : List UInt8) :
    (inputPush kcp h data).clockSide = kcp.clockSide := by
  unfold inputPush
  split
  · dsimp only
    split
    · exact ikcpParseData_clock _ _
    · rfl
  · rfl

@[simp] theorem inputRtt_clock (ts : UInt32) : (inputRtt kcp ts).clockSide = kcp.clockSide := by
  unfold inputRtt
  split
  · exact ikcpUpdateAck_clock _ _
  · rfl

@[simp] theorem inputHead_clock (h : IkcpHeader) :
    (inputHead kcp h).clockSide = kcp.clockSide :=
  ikcpShrinkBuf_clock (ikcpParseUna { kcp with rmtWnd := h.wnd.toUInt32 } h.una)

@[simp] theorem inputWask_clock : (inputWask kcp).clockSide = kcp.clockSide := rfl

theorem inputSeg_clock (st : InputState) (h : IkcpHeader) (data : List UInt8) :
    (inputSeg st h data).kcp.clockSide = st.kcp.clockSide := by
  unfold inputSeg
  dsimp only
  split_ifs <;> simp

theorem inputLoop_clock (fuel : ℕ) (st : InputState) (data : List UInt8) :
    (inputLoop fuel st data).1.kcp.clockSide = st.kcp.clockSide := by
  induction fuel generalizing st data with
  | zero => rfl
  | succ fuel ih =>
    rw [inputLoop]
    split
    · rfl
    · dsimp only
      split
      · rfl
      · rw [ih, inputSeg_clock]

theorem ikcpInput_clock (data : List UInt8) :
    (ikcpInput kcp data).1.clockSide = kcp.clockSide := by
  have h := inputLoop_clock data.length { kcp := kcp } data
  unfold ikcpInput
  dsimp only
  split_ifs
  · rfl
  · exact h
  · refine Eq.trans ?_ h
    unfold inputFinish
    dsimp only
    split_ifs <;> simp

theorem ikcpSend_clock (buffer : List UInt8) :
    (ikcpSend kcp buffer).1.clockSide = kcp.clockSide := by
  have h : (extendPrevious kcp buffer).1.clockSide = kcp.clockSide := by
    unfold extendPrevious
    split
    · rfl
    · split <;> rfl
  unfold ikcpSend
  dsimp only
  split_ifs <;> first | exact h | rfl

theorem ikcpRecv_clock (len : ℤ) : (ikcpRecv kcp len).1.clockSide = kcp.clockSide := by
  unfold ikcpRecv
  dsimp only
  split_ifs <;> first | rfl | exact moveAvailableLoop_clock _ _

theorem flushMoved_clock : (flushMoved kcp).clockSide = kcp.clockSide := by
  have hmove : ∀ (cwnd wnd : UInt32) (segs : List IkcpSeg) (kcp : Ikcpcb),
      (moveToSndBuf cwnd wnd segs kcp).clockSide = kcp.clockSide := by
    intro cwnd wnd segs
    induction segs with
    | nil => exact fun _ ↦ rfl
    | cons seg rest ih =>
      intro kcp
      rw [moveToSndBuf]
      split
      · exact ih _
      · rfl
  refine (hmove _ _ _ _).trans ?_
  unfold flushProbe Ikcpcb.clockSide
  dsimp only
  split_ifs <;> rfl

theorem ikcpFlush_clock : (ikcpFlush kcp).1.clockSide = kcp.clockSide := by
  have hssthresh : ∀ (kcp : Ikcpcb) (resent cwnd : UInt32) (change lost : Bool),
      (updateSsthresh kcp resent cwnd change lost).clockSide = kcp.clockSide := by
    intro kcp resent cwnd change lost
    unfold updateSsthresh
    dsimp only
    split_ifs <;> rfl
  by_cases hupd : kcp.updated = 0
  · rw [ikcpFlush_of_not_updated hupd]
  · rw [ikcpFlush, if_neg hupd]
    exact (hssthresh _ _ _ _ _).trans (flushMoved_clock kcp)

end Frames

/-! ## The test -/

/-- Does an update at this time flush? -/
def flushDue (kcp : Ikcpcb) (current : UInt32) : Bool :=
  let kcp := updateClock kcp current
  let slap := itimediff kcp.current kcp.tsFlush
  0 ≤ slap ∨ slap < -10000

/-- The block `ikcp_flush` is called on. -/
def scheduled (kcp : Ikcpcb) (current : UInt32) : Ikcpcb :=
  let kcp := updateClock kcp current
  let slap := itimediff kcp.current kcp.tsFlush
  scheduleFlush (if slap ≥ 10000 ∨ slap < -10000 then { kcp with tsFlush := kcp.current } else kcp)

/-- Only the clock and the deadline have changed when the flush begins. -/
theorem scheduled_eq (kcp : Ikcpcb) (current : UInt32) : ∃ tsFlush updated,
    scheduled kcp current
      = { kcp with current := current, tsFlush := tsFlush, updated := updated } := by
  unfold scheduled updateClock scheduleFlush
  dsimp only
  split_ifs <;> exact ⟨_, _, rfl⟩

theorem ikcpUpdate_of_due {kcp : Ikcpcb} {current : UInt32} (h : flushDue kcp current = true) :
    ikcpUpdate kcp current = ikcpFlush (scheduled kcp current) := by
  rw [flushDue, decide_eq_true_eq] at h
  rw [ikcpUpdate, scheduled]
  split_ifs with hjump hpast
  · rfl
  · rfl
  · omega

theorem ikcpUpdate_of_not_due {kcp : Ikcpcb} {current : UInt32}
    (h : flushDue kcp current = false) : ikcpUpdate kcp current = (updateClock kcp current, []) := by
  rw [flushDue, decide_eq_false_iff_not] at h
  rw [ikcpUpdate]
  split_ifs with hjump hpast
  · omega
  · omega
  · rfl

/-- `ikcp_flush` sees the block as it was, but for the clock. -/
theorem scheduled_sides (kcp : Ikcpcb) (current : UInt32) :
    (scheduled kcp current).config = kcp.config ∧
      (scheduled kcp current).sendSide = kcp.sendSide ∧
      (scheduled kcp current).recvSide = kcp.recvSide ∧ (scheduled kcp current).updated ≠ 0 ∧
      (scheduled kcp current).current = current := by
  obtain ⟨hconfig, hsend, hrecv, hupd⟩ := updateClock_sides kcp current
  have hcurrent : (updateClock kcp current).current = current := by
    unfold updateClock
    split <;> rfl
  have hsched : ∀ tsFlush : UInt32,
      let base := scheduleFlush { updateClock kcp current with tsFlush := tsFlush }
      base.config = kcp.config ∧ base.sendSide = kcp.sendSide ∧ base.recvSide = kcp.recvSide ∧
        base.updated ≠ 0 ∧ base.current = current := by
    intro tsFlush
    obtain ⟨hconfig', hsend', hrecv', hupd'⟩ :=
      scheduleFlush_sides { updateClock kcp current with tsFlush := tsFlush }
    refine ⟨hconfig'.trans hconfig, hsend'.trans hsend, hrecv'.trans hrecv, hupd' ▸ hupd, ?_⟩
    unfold scheduleFlush
    dsimp only
    split <;> exact hcurrent
  rw [scheduled]
  split_ifs
  · exact hsched _
  · exact hsched (updateClock kcp current).tsFlush

/-! ## `ikcp_check` -/

/-- The loop of `ikcp_check` over the send buffer: the least time left until a retransmission, or
`none` where the source returns `current`. -/
def checkPackets (current : UInt32) : List IkcpSeg → ℤ → Option ℤ
  | [], tmPacket => some tmPacket
  | seg :: rest, tmPacket =>
    let diff := itimediff seg.resendts current
    if diff ≤ 0 then none
    else checkPackets current rest (if diff < tmPacket then diff else tmPacket)

/-- `ikcp_check`. -/
def ikcpCheck (kcp : Ikcpcb) (current : UInt32) : UInt32 :=
  if kcp.updated = 0 then current
  else
    let tsFlush :=
      if itimediff current kcp.tsFlush ≥ 10000 ∨ itimediff current kcp.tsFlush < -10000 then current
      else kcp.tsFlush
    if itimediff current tsFlush ≥ 0 then current
    else
      let tmFlush := itimediff tsFlush current
      match checkPackets current kcp.sndBuf 0x7fffffff with
      | none => current
      | some tmPacket =>
        let minimal := UInt32.ofInt (if tmPacket < tmFlush then tmPacket else tmFlush)
        current + if minimal ≥ kcp.interval then kcp.interval else minimal

theorem checkPackets_pos {current : UInt32} {segs : List IkcpSeg} {tm tmPacket : ℤ}
    (h : checkPackets current segs tm = some tmPacket) (htm : 0 < tm) : 0 < tmPacket := by
  induction segs generalizing tm with
  | nil => exact Option.some.inj h ▸ htm
  | cons seg rest ih =>
    rw [checkPackets] at h
    split_ifs at h with hdiff hlt
    · exact ih h (not_le.mp hdiff)
    · exact ih h htm

/-- A deadline that is ahead, and not by half a turn of the clock. -/
theorem ahead_of_itimediff_neg {a b : UInt32} (hneg : itimediff a b < 0)
    (hlow : -(2 ^ 31) < itimediff a b) :
    (ahead b a : ℤ) = -itimediff a b ∧ itimediff b a = ahead b a := by
  have hne : a.toBitVec ≠ b.toBitVec := by
    intro heq
    rw [itimediff_eq_diff, heq, Serial.diff_eq_elapsed] at hneg
    simp at hneg
  have hdiff := Serial.diff_eq_elapsed a.toBitVec b.toBitVec
  have hlt := Serial.elapsed_lt a.toBitVec b.toBitVec
  have hback : ahead b a = 2 ^ 32 - ahead a b := Serial.elapsed_swap hne
  rw [← itimediff_eq_diff] at hdiff
  have hdiff' := Serial.diff_eq_elapsed b.toBitVec a.toBitVec
  rw [← itimediff_eq_diff] at hdiff'
  change itimediff b a = if 2 * ahead b a < 2 ^ 32 then _ else _ at hdiff'
  change itimediff a b = if 2 * ahead a b < 2 ^ 32 then (ahead a b : ℤ) else ahead a b - 2 ^ 32
    at hdiff
  split_ifs at hdiff <;> split_ifs at hdiff' <;> constructor <;> omega

/-- What `ikcp_check` answers, if it is not "now": a time no later than the deadline, which lies
ahead and is not far off. -/
theorem ikcpCheck_cases (kcp : Ikcpcb) (current : UInt32) :
    ikcpCheck kcp current = current ∨
      kcp.updated ≠ 0 ∧ ahead (ikcpCheck kcp current) current ≤ ahead kcp.tsFlush current ∧
        ahead kcp.tsFlush current ≤ 10000 := by
  rw [ikcpCheck]
  by_cases hupd : kcp.updated = 0
  · exact .inl (if_pos hupd)
  rw [if_neg hupd]
  dsimp only
  by_cases hjump : itimediff current kcp.tsFlush ≥ 10000 ∨ itimediff current kcp.tsFlush < -10000
  · left
    rw [if_pos hjump, if_pos]
    rw [itimediff_of_ahead current ⟨by simp, by simp⟩]
    simp
  rw [if_neg hjump]
  by_cases hpast : itimediff current kcp.tsFlush ≥ 0
  · exact .inl (if_pos hpast)
  rw [if_neg hpast]
  obtain ⟨hnear, hdiff⟩ := ahead_of_itimediff_neg (not_le.mp hpast) (by omega)
  cases hpackets : checkPackets current kcp.sndBuf 0x7fffffff with
  | none => exact .inl rfl
  | some tmPacket =>
    refine .inr ⟨hupd, ?_, by omega⟩
    have hpos := checkPackets_pos hpackets (by decide)
    dsimp only
    set m : ℤ := if tmPacket < itimediff kcp.tsFlush current then tmPacket
      else itimediff kcp.tsFlush current with hm
    have hm : 0 < m ∧ m ≤ ahead kcp.tsFlush current := by
      rw [hm]
      split_ifs <;> omega
    have hminimal : (UInt32.ofInt m).toNat = m.toNat := by
      have hrem : m % 2 ^ 32 = m := Int.emod_eq_of_lt hm.1.le (by omega)
      rw [UInt32.ofInt, hrem, UInt32.toNat_ofNat_of_lt' (by simp; omega)]
    rw [ahead_add_self]
    split_ifs with hinterval
    · have hle := UInt32.le_iff_toNat_le.mp hinterval
      omega
    · omega

theorem updateClock_of_updated {kcp : Ikcpcb} (h : kcp.updated ≠ 0) (current : UInt32) :
    updateClock kcp current = { kcp with current := current } := if_neg h

/-- **No flush is missed.** Before the time `ikcp_check` gives, no update flushes. -/
theorem not_due_of_check {kcp : Ikcpcb} {current t : UInt32}
    (h : ahead t current < ahead (ikcpCheck kcp current) current) :
    kcp.updated ≠ 0 ∧ flushDue kcp t = false := by
  rcases ikcpCheck_cases kcp current with hnow | ⟨hupd, hle, hnear⟩
  · rw [hnow, ahead, ahead, Serial.elapsed_self] at h
    exact absurd h (Nat.not_lt_zero _)
  · refine ⟨hupd, ?_⟩
    rw [flushDue, updateClock_of_updated hupd, decide_eq_false_iff_not,
      itimediff_of_ahead current ⟨by dsimp only; omega, by dsimp only; omega⟩]
    dsimp only
    omega

/-- The calls of `ikcp_update` at these times, one after the other. -/
def updates (kcp : Ikcpcb) (times : List UInt32) : Ikcpcb × List (List UInt8) :=
  times.foldl (fun s t ↦ ((ikcpUpdate s.1 t).1, s.2 ++ (ikcpUpdate s.1 t).2)) (kcp, [])

/-- An update does not look at the time of the one before. -/
theorem ikcpUpdate_with_current (kcp : Ikcpcb) (c t : UInt32) :
    ikcpUpdate { kcp with current := c } t = ikcpUpdate kcp t := by
  have hclock : updateClock { kcp with current := c } t = updateClock kcp t := by
    unfold updateClock
    split <;> rfl
  rw [ikcpUpdate, ikcpUpdate, hclock]

/-- The updates before the time `ikcp_check` gives flush nothing, and move nothing but the clock. -/
theorem updates_of_check {kcp : Ikcpcb} {current : UInt32} {times : List UInt32}
    (h : ∀ t ∈ times, ahead t current < ahead (ikcpCheck kcp current) current) :
    updates kcp times = ({ kcp with current := times.getLastD kcp.current }, []) := by
  induction times using List.reverseRecOn with
  | nil => rfl
  | append_singleton times t ih =>
    have hc := ih fun t ht ↦ h t (List.mem_append_left _ ht)
    obtain ⟨hupd, hdue⟩ := not_due_of_check (h t (by simp))
    rw [updates, List.foldl_append, ← updates, hc, List.foldl_cons, List.foldl_nil,
      ikcpUpdate_with_current, ikcpUpdate_of_not_due hdue, updateClock_of_updated hupd,
      List.getLastD_concat]
    rfl

/-- **What `ikcp_check` promises.** The updates before the time it gives flush nothing and move
nothing but the clock; and they can be left out: whatever follows is the same, block and datagrams,
as if they had been made. -/
theorem updates_of_skipped {kcp : Ikcpcb} {current : UInt32} {times : List UInt32}
    (h : ∀ t ∈ times, ahead t current < ahead (ikcpCheck kcp current) current) :
    updates kcp times = ({ kcp with current := times.getLastD kcp.current }, []) ∧
      ∀ t, updates kcp (times ++ [t]) = ikcpUpdate kcp t := by
  have hskip := updates_of_check h
  refine ⟨hskip, fun t ↦ ?_⟩
  rw [updates, List.foldl_append, ← updates, hskip, List.foldl_cons, List.foldl_nil,
    ikcpUpdate_with_current]
  rfl

/-- After the first update at 0 the next flush is due at 10. -/
theorem updates_of_skipped_three :
    let kcp := (ikcpUpdate (configuredKcp 7 0) 0).1
    updates kcp [3, 7, 9] = ({ kcp with current := 9 }, []) ∧
      updates kcp ([3, 7, 9] ++ [12]) = ikcpUpdate kcp 12 := by
  intro kcp
  have hearly : ∀ t ∈ [3, 7, 9], ahead t 0 < ahead (ikcpCheck kcp 0) 0 := by
    simp only [List.mem_cons, List.not_mem_nil, or_false]
    rintro t (rfl | rfl | rfl)
    · decide +kernel
    · decide +kernel
    · decide +kernel
  obtain ⟨hskip, hnext⟩ := @updates_of_skipped kcp 0 [3, 7, 9] hearly
  exact ⟨hskip, hnext 12⟩

end KcpEcho
