import KcpEcho.Ikcp.Control

/-!
# `ikcp_input`: what a control block does with a received datagram

The acknowledgement bookkeeping (`ikcp_update_ack` down to `ikcp_ack_push`), the insertion of data
(`ikcp_parse_data`) and the decoding loop that drives them.

The loop is cut into three parts that its proofs follow: `headerError`, the checks that make
`ikcp_input` return a negative value; `inputSeg`, what a well-formed segment does; and
`inputLoop`, which walks the datagram. Signed overflow in the round-trip estimate is modelled as
wrapping; no theorem depends on the estimate.
-/

namespace KcpEcho

/-! ## Acknowledgements -/

/-- `ikcp_update_ack`. -/
def ikcpUpdateAck (kcp : Ikcpcb) (rtt : Int32) : Ikcpcb :=
  let kcp :=
    if kcp.rxSrtt = 0 then { kcp with rxSrtt := rtt, rxRttval := rtt / 2 }
    else
      let delta : ℤ := (rtt - kcp.rxSrtt).toInt
      let delta := if delta < 0 then -delta else delta
      let rxRttval := Int32.ofInt (((3 * kcp.rxRttval).toInt + delta).tdiv 4)
      let rxSrtt := (7 * kcp.rxSrtt + rtt) / 8
      { kcp with rxRttval := rxRttval, rxSrtt := if rxSrtt < 1 then 1 else rxSrtt }
  let rto := kcp.rxSrtt.toUInt32 + imax kcp.interval (4 * kcp.rxRttval).toUInt32
  { kcp with rxRto := (ibound kcp.rxMinrto.toUInt32 rto ikcpRtoMax).toInt32 }

/-- `ikcp_shrink_buf`. -/
def ikcpShrinkBuf (kcp : Ikcpcb) : Ikcpcb :=
  match kcp.sndBuf with
  | seg :: _ => { kcp with sndUna := seg.sn }
  | [] => { kcp with sndUna := kcp.sndNxt }

/-- The loop of `ikcp_parse_ack`. -/
def removeAcked (sn : UInt32) : List IkcpSeg → List IkcpSeg
  | [] => []
  | seg :: rest =>
    if sn = seg.sn then rest
    else if itimediff sn seg.sn < 0 then seg :: rest
    else seg :: removeAcked sn rest

/-- `ikcp_parse_ack`. -/
def ikcpParseAck (kcp : Ikcpcb) (sn : UInt32) : Ikcpcb :=
  if itimediff sn kcp.sndUna < 0 ∨ itimediff sn kcp.sndNxt ≥ 0 then kcp
  else { kcp with sndBuf := removeAcked sn kcp.sndBuf }

/-- `ikcp_parse_una`. -/
def ikcpParseUna (kcp : Ikcpcb) (una : UInt32) : Ikcpcb :=
  { kcp with sndBuf := kcp.sndBuf.dropWhile fun seg ↦ itimediff una seg.sn > 0 }

/-- The loop of `ikcp_parse_fastack`. -/
def bumpFastack (sn : UInt32) : List IkcpSeg → List IkcpSeg
  | [] => []
  | seg :: rest =>
    if itimediff sn seg.sn < 0 then seg :: rest
    else if sn ≠ seg.sn then { seg with fastack := seg.fastack + 1 } :: bumpFastack sn rest
    else seg :: bumpFastack sn rest

/-- `ikcp_parse_fastack`. Its `ts` is read under `IKCP_FASTACK_CONSERVE` only, which is unset. -/
def ikcpParseFastack (kcp : Ikcpcb) (sn _ts : UInt32) : Ikcpcb :=
  if itimediff sn kcp.sndUna < 0 ∨ itimediff sn kcp.sndNxt ≥ 0 then kcp
  else { kcp with sndBuf := bumpFastack sn kcp.sndBuf }

/-- `ikcp_ack_push`, while fewer than `2 ^ 30` acknowledgements are pending. -/
def ikcpAckPush (kcp : Ikcpcb) (sn ts : UInt32) : Ikcpcb :=
  { kcp with acklist := kcp.acklist ++ [(sn, ts)] }

/-! ## Data -/

/-- The backward scan of `ikcp_parse_data` over `rcv_buf`, here given last segment first. `none` is
`repeat`; otherwise the buffer with the new segment behind the first smaller number. -/
def insertBackward (newseg : IkcpSeg) : List IkcpSeg → Option (List IkcpSeg)
  | [] => some [newseg]
  | seg :: rest =>
    if seg.sn = newseg.sn then none
    else if itimediff newseg.sn seg.sn > 0 then some (newseg :: seg :: rest)
    else (insertBackward newseg rest).map (seg :: ·)

/-- `ikcp_parse_data`. -/
def ikcpParseData (kcp : Ikcpcb) (newseg : IkcpSeg) : Ikcpcb :=
  if itimediff newseg.sn (kcp.rcvNxt + kcp.rcvWnd) ≥ 0 ∨ itimediff newseg.sn kcp.rcvNxt < 0 then
    kcp
  else
    let rcvBuf :=
      match insertBackward newseg kcp.rcvBuf.reverse with
      | none => kcp.rcvBuf
      | some buf => buf.reverse
    moveAvailable { kcp with rcvBuf := rcvBuf }

/-! ## The decoding loop -/

/-- The control block and the locals of `ikcp_input` that survive from one segment to the next. -/
structure InputState where
  kcp : Ikcpcb
  flag : Bool := false
  maxack : UInt32 := 0
  latestTs : UInt32 := 0

/-- The checks on a decoded header with `size` bytes behind it, in the order of the source: the
error `ikcp_input` returns, if any. -/
def headerError (conv : UInt32) (h : IkcpHeader) (size : ℕ) : Option ℤ :=
  if h.conv ≠ conv then some (-1)
  -- the length has to be there, and must not be negative when it is read as an int
  else if size < h.len.toNat ∨ h.len.toNat ≥ 2 ^ 31 then some (-2)
  else if h.cmd.toUInt32 ≠ ikcpCmdPush ∧ h.cmd.toUInt32 ≠ ikcpCmdAck ∧
      h.cmd.toUInt32 ≠ ikcpCmdWask ∧ h.cmd.toUInt32 ≠ ikcpCmdWins then some (-3)
  else none

/-- The round-trip estimate of the `IKCP_CMD_ACK` branch. -/
def inputRtt (kcp : Ikcpcb) (ts : UInt32) : Ikcpcb :=
  if itimediff kcp.current ts ≥ 0 then
    ikcpUpdateAck kcp (Int32.ofInt (itimediff kcp.current ts))
  else kcp

/-- The `IKCP_CMD_ACK` branch. -/
def inputAck (st : InputState) (h : IkcpHeader) : InputState :=
  let kcp := ikcpShrinkBuf (ikcpParseAck (inputRtt st.kcp h.ts) h.sn)
  if st.flag = false then { kcp := kcp, flag := true, maxack := h.sn, latestTs := h.ts }
  else if itimediff h.sn st.maxack > 0 then
    { st with kcp := kcp, maxack := h.sn, latestTs := h.ts }
  else { st with kcp := kcp }

/-- The segment the `IKCP_CMD_PUSH` branch builds from a header and the bytes behind it. -/
def IkcpHeader.segment (h : IkcpHeader) (data : List UInt8) : IkcpSeg where
  conv := h.conv
  cmd := h.cmd.toUInt32
  frg := h.frg.toUInt32
  wnd := h.wnd.toUInt32
  ts := h.ts
  sn := h.sn
  una := h.una
  data := data

/-- The test of the `IKCP_CMD_PUSH` branch: is the number below the receive window's end? -/
def inWindow (kcp : Ikcpcb) (sn : UInt32) : Bool := itimediff sn (kcp.rcvNxt + kcp.rcvWnd) < 0

/-- The `IKCP_CMD_PUSH` branch. -/
def inputPush (kcp : Ikcpcb) (h : IkcpHeader) (data : List UInt8) : Ikcpcb :=
  if inWindow kcp h.sn then
    let kcp := ikcpAckPush kcp h.sn h.ts
    -- a number below the window is acknowledged once more, but its data is dropped
    if itimediff h.sn kcp.rcvNxt ≥ 0 then ikcpParseData kcp (h.segment data) else kcp
  else kcp

/-- What every segment that passed the checks does first: window, cumulative acknowledgement. -/
def inputHead (kcp : Ikcpcb) (h : IkcpHeader) : Ikcpcb :=
  ikcpShrinkBuf (ikcpParseUna { kcp with rmtWnd := h.wnd.toUInt32 } h.una)

/-- The `IKCP_CMD_WASK` branch: answered by `IKCP_CMD_WINS` in `ikcp_flush`. -/
def inputWask (kcp : Ikcpcb) : Ikcpcb := { kcp with probe := kcp.probe ||| ikcpAskTell }

/-- What one segment that passed the checks does. -/
def inputSeg (st : InputState) (h : IkcpHeader) (data : List UInt8) : InputState :=
  let st := { st with kcp := inputHead st.kcp h }
  if h.cmd.toUInt32 = ikcpCmdAck then inputAck st h
  else if h.cmd.toUInt32 = ikcpCmdPush then { st with kcp := inputPush st.kcp h data }
  else if h.cmd.toUInt32 = ikcpCmdWask then { st with kcp := inputWask st.kcp }
  else st

/-- The decoding loop. Every round takes at least the header off, so the length of the datagram is
fuel enough. -/
def inputLoop : ℕ → InputState → List UInt8 → InputState × ℤ
  | 0, st, _ => (st, 0)
  | fuel + 1, st, data =>
    if data.length < ikcpOverhead then (st, 0)
    else
      let (h, rest) := decodeHeader data
      match headerError st.kcp.conv h rest.length with
      -- what the segments before this one did is kept
      | some err => (st, err)
      | none => inputLoop fuel (inputSeg st h (rest.take h.len.toNat)) (rest.drop h.len.toNat)

/-- The congestion window update at the end of `ikcp_input`. -/
def updateCwnd (kcp : Ikcpcb) : Ikcpcb :=
  if kcp.cwnd < kcp.rmtWnd then
    let mss := kcp.mss
    let kcp : Ikcpcb :=
      if kcp.cwnd < kcp.ssthresh then { kcp with cwnd := kcp.cwnd + 1, incr := kcp.incr + mss }
      else
        let incr := if kcp.incr < mss then mss else kcp.incr
        let incr := incr + ((mss * mss) / incr + mss / 16)
        if (kcp.cwnd + 1) * mss ≤ incr then
          { kcp with incr := incr, cwnd := (incr + mss - 1) / (if mss > 0 then mss else 1) }
        else { kcp with incr := incr }
    if kcp.cwnd > kcp.rmtWnd then
      { kcp with cwnd := kcp.rmtWnd, incr := kcp.rmtWnd * mss }
    else kcp
  else kcp

/-- The end of `ikcp_input`, once the loop has run through. -/
def inputFinish (prevUna : UInt32) (st : InputState) : Ikcpcb :=
  let kcp := if st.flag then ikcpParseFastack st.kcp st.maxack st.latestTs else st.kcp
  if itimediff kcp.sndUna prevUna > 0 then updateCwnd kcp else kcp

/-- `ikcp_input`: the control block and the returned value. -/
def ikcpInput (kcp : Ikcpcb) (data : List UInt8) : Ikcpcb × ℤ :=
  if data.length < ikcpOverhead then (kcp, -1)
  else
    let (st, ret) := inputLoop data.length { kcp := kcp } data
    -- an error leaves the function before its end
    if ret < 0 then (st.kcp, ret) else (inputFinish kcp.sndUna st, 0)

end KcpEcho
