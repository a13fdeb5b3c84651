import KcpEcho.Ikcp.Flush

/-!
# The two sides of a control block

A control block is a sender and a receiver that share a record. Most functions of `ikcp.c` touch
one of the two and leave the other alone; nothing but the creation functions touches the
configuration. This file names the three parts and states, function by function, which of them
moves. Every later proof reads a function through these lemmas and never unfolds it.

The parts forget what no proof about delivered bytes depends on: time stamps, retransmission
counters, the round-trip estimate and the congestion window.
-/

namespace KcpEcho

/-! ## The parts -/

/-- The part of a segment that travels unchanged from its first transmission on. -/
structure SegBody where
  conv : UInt32
  cmd : UInt32
  frg : UInt32
  sn : UInt32
  data : List UInt8
  deriving DecidableEq

def IkcpSeg.body (seg : IkcpSeg) : SegBody := ⟨seg.conv, seg.cmd, seg.frg, seg.sn, seg.data⟩

/-- What is fixed once the block has been configured. -/
structure IkcpConfig where
  conv : UInt32
  user : Ptr
  mtu : UInt32
  mss : UInt32
  sndWnd : UInt32
  rcvWnd : UInt32
  interval : UInt32
  nodelay : UInt32
  fastresend : ℤ
  fastlimit : ℤ
  nocwnd : ℤ
  stream : ℤ
  deriving DecidableEq

/-- What has been handed to `ikcp_send` and is not acknowledged yet. -/
structure SendSide where
  una : UInt32
  nxt : UInt32
  /-- The fragment number and the data of each segment waiting in `snd_queue`. -/
  queue : List (UInt32 × List UInt8)
  buf : List SegBody

/-- What has arrived, and what is still to be acknowledged. -/
structure RecvSide where
  nxt : UInt32
  queue : List IkcpSeg
  buf : List IkcpSeg
  acks : List (UInt32 × UInt32)

namespace Ikcpcb

def config (kcp : Ikcpcb) : IkcpConfig where
  conv := kcp.conv
  user := kcp.user
  mtu := kcp.mtu
  mss := kcp.mss
  sndWnd := kcp.sndWnd
  rcvWnd := kcp.rcvWnd
  interval := kcp.interval
  nodelay := kcp.nodelay
  fastresend := kcp.fastresend
  fastlimit := kcp.fastlimit
  nocwnd := kcp.nocwnd
  stream := kcp.stream

def sendSide (kcp : Ikcpcb) : SendSide where
  una := kcp.sndUna
  nxt := kcp.sndNxt
  queue := kcp.sndQueue.map fun seg ↦ (seg.frg, seg.data)
  buf := kcp.sndBuf.map IkcpSeg.body

def recvSide (kcp : Ikcpcb) : RecvSide where
  nxt := kcp.rcvNxt
  queue := kcp.rcvQueue
  buf := kcp.rcvBuf
  acks := kcp.acklist

end Ikcpcb

/-! ## Neither side moves -/

@[simp] theorem ikcpUpdateAck_sides (kcp : Ikcpcb) (rtt : Int32) :
    (ikcpUpdateAck kcp rtt).config = kcp.config ∧
      (ikcpUpdateAck kcp rtt).sendSide = kcp.sendSide ∧
      (ikcpUpdateAck kcp rtt).recvSide = kcp.recvSide := by
  unfold ikcpUpdateAck
  split <;> exact ⟨rfl, rfl, rfl⟩

@[simp] theorem map_body_bumpFastack (sn : UInt32) (segs : List IkcpSeg) :
    (bumpFastack sn segs).map IkcpSeg.body = segs.map IkcpSeg.body := by
  induction segs with
  | nil => rfl
  | cons seg rest ih =>
    rw [bumpFastack]
    split
    · rfl
    · split
      · rw [List.map_cons, List.map_cons, ih]
        rfl
      · rw [List.map_cons, List.map_cons, ih]

@[simp] theorem ikcpParseFastack_sides (kcp : Ikcpcb) (sn ts : UInt32) :
    (ikcpParseFastack kcp sn ts).config = kcp.config ∧
      (ikcpParseFastack kcp sn ts).sendSide = kcp.sendSide ∧
      (ikcpParseFastack kcp sn ts).recvSide = kcp.recvSide := by
  unfold ikcpParseFastack
  split
  · exact ⟨rfl, rfl, rfl⟩
  · refine ⟨rfl, ?_, rfl⟩
    simp [Ikcpcb.sendSide]

@[simp] theorem updateCwnd_sides (kcp : Ikcpcb) :
    (updateCwnd kcp).config = kcp.config ∧ (updateCwnd kcp).sendSide = kcp.sendSide ∧
      (updateCwnd kcp).recvSide = kcp.recvSide := by
  unfold updateCwnd
  split
  · dsimp only
    split_ifs <;> exact ⟨rfl, rfl, rfl⟩
  · exact ⟨rfl, rfl, rfl⟩

/-! ## Only the sender moves -/

@[simp] theorem ikcpShrinkBuf_frame (kcp : Ikcpcb) :
    (ikcpShrinkBuf kcp).config = kcp.config ∧ (ikcpShrinkBuf kcp).recvSide = kcp.recvSide := by
  unfold ikcpShrinkBuf
  split <;> exact ⟨rfl, rfl⟩

@[simp] theorem ikcpParseUna_frame (kcp : Ikcpcb) (una : UInt32) :
    (ikcpParseUna kcp una).config = kcp.config ∧
      (ikcpParseUna kcp una).recvSide = kcp.recvSide := ⟨rfl, rfl⟩

@[simp] theorem ikcpParseAck_frame (kcp : Ikcpcb) (sn : UInt32) :
    (ikcpParseAck kcp sn).config = kcp.config ∧
      (ikcpParseAck kcp sn).recvSide = kcp.recvSide := by
  unfold ikcpParseAck
  split <;> exact ⟨rfl, rfl⟩

@[simp] theorem extendPrevious_frame (kcp : Ikcpcb) (buffer : List UInt8) :
    (extendPrevious kcp buffer).1.config = kcp.config ∧
      (extendPrevious kcp buffer).1.recvSide = kcp.recvSide := by
  unfold extendPrevious
  split
  · exact ⟨rfl, rfl⟩
  · split <;> exact ⟨rfl, rfl⟩

@[simp] theorem ikcpSend_frame (kcp : Ikcpcb) (buffer : List UInt8) :
    (ikcpSend kcp buffer).1.config = kcp.config ∧
      (ikcpSend kcp buffer).1.recvSide = kcp.recvSide := by
  have h := extendPrevious_frame kcp buffer
  unfold ikcpSend
  dsimp only
  split_ifs <;> first | exact h | exact ⟨rfl, rfl⟩

/-! ## Only the receiver moves -/

theorem moveAvailableLoop_frame (segs : List IkcpSeg) (kcp : Ikcpcb) :
    (moveAvailableLoop segs kcp).config = kcp.config ∧
      (moveAvailableLoop segs kcp).sendSide = kcp.sendSide := by
  induction segs generalizing kcp with
  | nil => exact ⟨rfl, rfl⟩
  | cons seg rest ih =>
    rw [moveAvailableLoop]
    split
    · exact ih _
    · exact ⟨rfl, rfl⟩

@[simp] theorem moveAvailable_frame (kcp : Ikcpcb) :
    (moveAvailable kcp).config = kcp.config ∧ (moveAvailable kcp).sendSide = kcp.sendSide :=
  moveAvailableLoop_frame _ _

@[simp] theorem ikcpAckPush_frame (kcp : Ikcpcb) (sn ts : UInt32) :
    (ikcpAckPush kcp sn ts).config = kcp.config ∧
      (ikcpAckPush kcp sn ts).sendSide = kcp.sendSide := ⟨rfl, rfl⟩

@[simp] theorem ikcpParseData_frame (kcp : Ikcpcb) (newseg : IkcpSeg) :
    (ikcpParseData kcp newseg).config = kcp.config ∧
      (ikcpParseData kcp newseg).sendSide = kcp.sendSide := by
  unfold ikcpParseData
  split
  · exact ⟨rfl, rfl⟩
  · exact moveAvailable_frame _

@[simp] theorem inputPush_frame (kcp : Ikcpcb) (h : IkcpHeader) (data : List UInt8) :
    (inputPush kcp h data).config = kcp.config ∧
      (inputPush kcp h data).sendSide = kcp.sendSide := by
  unfold inputPush
  split
  · dsimp only
    split
    · exact ikcpParseData_frame _ _
    · exact ⟨rfl, rfl⟩
  · exact ⟨rfl, rfl⟩

@[simp] theorem ikcpRecv_frame (kcp : Ikcpcb) (len : ℤ) :
    (ikcpRecv kcp len).1.config = kcp.config ∧
      (ikcpRecv kcp len).1.sendSide = kcp.sendSide := by
  unfold ikcpRecv
  dsimp only
  split_ifs <;> first | exact ⟨rfl, rfl⟩ | exact moveAvailable_frame _

/-! ## The configuration never moves -/

@[simp] theorem inputRtt_sides (kcp : Ikcpcb) (ts : UInt32) :
    (inputRtt kcp ts).config = kcp.config ∧ (inputRtt kcp ts).sendSide = kcp.sendSide ∧
      (inputRtt kcp ts).recvSide = kcp.recvSide := by
  unfold inputRtt
  split
  · exact ikcpUpdateAck_sides _ _
  · exact ⟨rfl, rfl, rfl⟩

@[simp] theorem inputAck_kcp (st : InputState) (h : IkcpHeader) :
    (inputAck st h).kcp = ikcpShrinkBuf (ikcpParseAck (inputRtt st.kcp h.ts) h.sn) := by
  unfold inputAck
  dsimp only
  split_ifs <;> rfl

@[simp] theorem inputHead_frame (kcp : Ikcpcb) (h : IkcpHeader) :
    (inputHead kcp h).config = kcp.config ∧ (inputHead kcp h).recvSide = kcp.recvSide :=
  ikcpShrinkBuf_frame (ikcpParseUna { kcp with rmtWnd := h.wnd.toUInt32 } h.una)

@[simp] theorem inputWask_sides (kcp : Ikcpcb) :
    (inputWask kcp).config = kcp.config ∧ (inputWask kcp).sendSide = kcp.sendSide ∧
      (inputWask kcp).recvSide = kcp.recvSide := ⟨rfl, rfl, rfl⟩

theorem inputSeg_config (st : InputState) (h : IkcpHeader) (data : List UInt8) :
    (inputSeg st h data).kcp.config = st.kcp.config := by
  unfold inputSeg
  dsimp only
  split_ifs <;> simp

theorem inputLoop_config (fuel : ℕ) (st : InputState) (data : List UInt8) :
    (inputLoop fuel st data).1.kcp.config = st.kcp.config := by
  induction fuel generalizing st data with
  | zero => rfl
  | succ fuel ih =>
    rw [inputLoop]
    split
    · rfl
    · dsimp only
      split
      · rfl
      · rw [ih, inputSeg_config]

theorem inputFinish_sides (prevUna : UInt32) (st : InputState) :
    (inputFinish prevUna st).config = st.kcp.config ∧
      (inputFinish prevUna st).sendSide = st.kcp.sendSide ∧
      (inputFinish prevUna st).recvSide = st.kcp.recvSide := by
  unfold inputFinish
  dsimp only
  split_ifs <;> simp

theorem ikcpInput_config (kcp : Ikcpcb) (data : List UInt8) :
    (ikcpInput kcp data).1.config = kcp.config := by
  have h := inputLoop_config data.length { kcp := kcp } data
  unfold ikcpInput
  dsimp only
  split_ifs
  · rfl
  · exact h
  · exact (inputFinish_sides _ _).1.trans h

/-! ## `ikcp_flush`, stage by stage -/

@[simp] theorem flushProbe_sides (kcp : Ikcpcb) :
    (flushProbe kcp).config = kcp.config ∧ (flushProbe kcp).sendSide = kcp.sendSide ∧
      (flushProbe kcp).recvSide = kcp.recvSide := by
  unfold flushProbe Ikcpcb.config Ikcpcb.sendSide Ikcpcb.recvSide
  dsimp only
  split_ifs <;> exact ⟨rfl, rfl, rfl⟩

theorem moveToSndBuf_frame (cwnd wnd : UInt32) (segs : List IkcpSeg) (kcp : Ikcpcb) :
    (moveToSndBuf cwnd wnd segs kcp).config = kcp.config ∧
      (moveToSndBuf cwnd wnd segs kcp).recvSide = kcp.recvSide := by
  induction segs generalizing kcp with
  | nil => exact ⟨rfl, rfl⟩
  | cons seg rest ih =>
    rw [moveToSndBuf]
    split
    · exact ih _
    · exact ⟨rfl, rfl⟩

theorem sendDecision_body (kcp : Ikcpcb) (resent rtomin : UInt32) (seg : IkcpSeg) :
    (sendDecision kcp resent rtomin seg).seg.body = seg.body := by
  unfold sendDecision
  dsimp only
  split_ifs <;> rfl

theorem flushSegment_body (kcp : Ikcpcb) (resent rtomin wnd : UInt32) (seg : IkcpSeg)
    (ds : DataState) : (flushSegment kcp resent rtomin wnd seg ds).1.body = seg.body := by
  have h := sendDecision_body kcp resent rtomin seg
  unfold flushSegment
  dsimp only
  split <;> exact h

theorem flushData_body (kcp : Ikcpcb) (resent rtomin wnd : UInt32) (segs : List IkcpSeg)
    (ds : DataState) :
    (flushData kcp resent rtomin wnd segs ds).1.map IkcpSeg.body = segs.map IkcpSeg.body := by
  induction segs generalizing ds with
  | nil => rfl
  | cons seg rest ih =>
    rw [flushData]
    dsimp only
    rw [List.map_cons, List.map_cons, flushSegment_body, ih]

@[simp] theorem updateSsthresh_sides (kcp : Ikcpcb) (resent cwnd : UInt32) (change lost : Bool) :
    (updateSsthresh kcp resent cwnd change lost).config = kcp.config ∧
      (updateSsthresh kcp resent cwnd change lost).sendSide = kcp.sendSide ∧
      (updateSsthresh kcp resent cwnd change lost).recvSide = kcp.recvSide := by
  cases change <;> cases lost <;>
    · simp only [updateSsthresh, Bool.false_eq_true, if_false, if_true]
      split <;> exact ⟨rfl, rfl, rfl⟩

/-- The block `ikcp_flush` has in hand once the window has been filled from `snd_queue`: what it
sends, and all that it keeps of either side, is in here. -/
def flushMoved (kcp : Ikcpcb) : Ikcpcb :=
  let moving := { flushProbe { kcp with acklist := [] } with probe := 0 }
  moveToSndBuf (flushCwnd moving) (ikcpWndUnused kcp) moving.sndQueue moving

theorem flushMoved_frame (kcp : Ikcpcb) :
    (flushMoved kcp).config = kcp.config ∧
      (flushMoved kcp).recvSide = { kcp.recvSide with acks := [] } := by
  have hprobe := flushProbe_sides { kcp with acklist := [] }
  obtain ⟨hconfig, hrecv⟩ := moveToSndBuf_frame
    (flushCwnd { flushProbe { kcp with acklist := [] } with probe := 0 }) (ikcpWndUnused kcp)
    (flushProbe { kcp with acklist := [] }).sndQueue
    { flushProbe { kcp with acklist := [] } with probe := 0 }
  exact ⟨hconfig.trans hprobe.1, hrecv.trans hprobe.2.2⟩

theorem ikcpFlush_of_not_updated {kcp : Ikcpcb} (h : kcp.updated = 0) :
    ikcpFlush kcp = (kcp, []) := if_pos h

theorem ikcpFlush_sides {kcp : Ikcpcb} (h : kcp.updated ≠ 0) :
    (ikcpFlush kcp).1.config = kcp.config ∧
      (ikcpFlush kcp).1.sendSide = (flushMoved kcp).sendSide ∧
      (ikcpFlush kcp).1.recvSide = { kcp.recvSide with acks := [] } := by
  have hframe := flushMoved_frame kcp
  rw [ikcpFlush, if_neg h]
  dsimp only
  refine ⟨(updateSsthresh_sides _ _ _ _ _).1.trans hframe.1,
    (updateSsthresh_sides _ _ _ _ _).2.1.trans ?_,
    (updateSsthresh_sides _ _ _ _ _).2.2.trans hframe.2⟩
  simp only [Ikcpcb.sendSide, flushData_body]
  rfl

/-! ## `ikcp_update` -/

theorem updateClock_sides (kcp : Ikcpcb) (current : UInt32) :
    (updateClock kcp current).config = kcp.config ∧
      (updateClock kcp current).sendSide = kcp.sendSide ∧
      (updateClock kcp current).recvSide = kcp.recvSide ∧
      (updateClock kcp current).updated ≠ 0 := by
  unfold updateClock
  split
  · exact ⟨rfl, rfl, rfl, fun h ↦ absurd h (by decide : (1 : UInt32) ≠ 0)⟩
  · exact ⟨rfl, rfl, rfl, ‹_›⟩

theorem scheduleFlush_sides (kcp : Ikcpcb) :
    (scheduleFlush kcp).config = kcp.config ∧ (scheduleFlush kcp).sendSide = kcp.sendSide ∧
      (scheduleFlush kcp).recvSide = kcp.recvSide ∧
      (scheduleFlush kcp).updated = kcp.updated := by
  unfold scheduleFlush
  dsimp only
  split <;> exact ⟨rfl, rfl, rfl, rfl⟩

/-- **What `ikcp_update` can do**: set the clock fields, and then flush or not. -/
theorem ikcpUpdate_cases (kcp : Ikcpcb) (current : UInt32) :
    ∃ kcp' : Ikcpcb, kcp'.config = kcp.config ∧ kcp'.sendSide = kcp.sendSide ∧
      kcp'.recvSide = kcp.recvSide ∧ kcp'.updated ≠ 0 ∧
      (ikcpUpdate kcp current = ikcpFlush kcp' ∨ ikcpUpdate kcp current = (kcp', [])) := by
  obtain ⟨hconfig, hsend, hrecv, hupd⟩ := updateClock_sides kcp current
  have hsched := scheduleFlush_sides (updateClock kcp current)
  have hreset := scheduleFlush_sides
    { updateClock kcp current with tsFlush := (updateClock kcp current).current }
  unfold ikcpUpdate
  dsimp only
  split_ifs
  · exact ⟨_, hreset.1.trans hconfig, hreset.2.1.trans hsend, hreset.2.2.1.trans hrecv,
      hreset.2.2.2 ▸ hupd, .inl rfl⟩
  · exact ⟨_, hsched.1.trans hconfig, hsched.2.1.trans hsend, hsched.2.2.1.trans hrecv,
      hsched.2.2.2 ▸ hupd, .inl rfl⟩
  · exact ⟨_, hconfig, hsend, hrecv, hupd, .inr rfl⟩

end KcpEcho
