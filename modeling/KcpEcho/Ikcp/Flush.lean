import KcpEcho.Ikcp.Input

/-!
# `ikcp_flush` and `ikcp_update`: what a control block emits

Everything a session sends goes through `ikcp_flush`: pending acknowledgements, window probes and
data segments are packed one behind the other into a buffer of at most one MTU, and the buffer is
handed to `ikcp_output` whenever the next segment would not fit.

The five flush points of the source are the single function `FlushBuf.put`; the last one, behind
the loops, is `FlushBuf.finish`. The datagrams handed to the output callback are returned in order.
-/

namespace KcpEcho

/-! ## The output buffer -/

/-- The buffer of `ikcp_flush` up to `ptr`, and the datagrams already handed to `ikcp_output`. -/
structure FlushBuf where
  out : List (List UInt8) := []
  buffer : List UInt8 := []

/-- `ikcp_output`: nothing is sent for an empty buffer. -/
def ikcpOutput (out : List (List UInt8)) (data : List UInt8) : List (List UInt8) :=
  if data.length = 0 then out else out ++ [data]

/-- Append a segment, flushing first when header and data together would exceed the MTU. -/
def FlushBuf.put (fb : FlushBuf) (mtu : UInt32) (seg : IkcpSeg) : FlushBuf :=
  let fb :=
    if fb.buffer.length + (ikcpOverhead + seg.len) > mtu.toNat then
      { out := ikcpOutput fb.out fb.buffer, buffer := [] }
    else fb
  { fb with buffer := fb.buffer ++ seg.wire }

/-- "Flash remain segments". -/
def FlushBuf.finish (fb : FlushBuf) : List (List UInt8) := ikcpOutput fb.out fb.buffer

/-! ## The stages of `ikcp_flush` -/

/-- `ikcp_wnd_unused`. -/
def ikcpWndUnused (kcp : Ikcpcb) : UInt32 :=
  if kcp.nrcvQue < kcp.rcvWnd.toNat then kcp.rcvWnd - UInt32.ofNat kcp.nrcvQue else 0

/-- The local `seg` of `ikcp_flush` before the first acknowledgement is put into it. -/
def flushTemplate (kcp : Ikcpcb) : IkcpSeg where
  conv := kcp.conv
  cmd := ikcpCmdAck
  frg := 0
  wnd := ikcpWndUnused kcp
  una := kcp.rcvNxt
  sn := 0
  ts := 0

/-- "Flush acknowledges": one segment for each entry of the ack list. The template keeps the last
`sn` and `ts`, which the probes behind it then carry too. -/
def flushAcks (mtu : UInt32) : List (UInt32 × UInt32) → IkcpSeg → FlushBuf → IkcpSeg × FlushBuf
  | [], seg, fb => (seg, fb)
  | (sn, ts) :: acks, seg, fb =>
    let seg := { seg with sn := sn, ts := ts }
    flushAcks mtu acks seg (fb.put mtu seg)

/-- "Probe window size (if remote window size equals zero)". -/
def flushProbe (kcp : Ikcpcb) : Ikcpcb :=
  if kcp.rmtWnd = 0 then
    if kcp.probeWait = 0 then
      { kcp with probeWait := ikcpProbeInit, tsProbe := kcp.current + ikcpProbeInit }
    else if itimediff kcp.current kcp.tsProbe ≥ 0 then
      let wait := if kcp.probeWait < ikcpProbeInit then ikcpProbeInit else kcp.probeWait
      let wait := wait + wait / 2
      let wait := if wait > ikcpProbeLimit then ikcpProbeLimit else wait
      { kcp with
        probeWait := wait
        tsProbe := kcp.current + wait
        probe := kcp.probe ||| ikcpAskSend }
    else kcp
  else { kcp with tsProbe := 0, probeWait := 0 }

/-- One of the two blocks "flush window probing commands". -/
def flushCommand (kcp : Ikcpcb) (ask cmd : UInt32) (seg : IkcpSeg) (fb : FlushBuf) :
    IkcpSeg × FlushBuf :=
  if kcp.probe &&& ask ≠ 0 then
    let seg := { seg with cmd := cmd }
    (seg, fb.put kcp.mtu seg)
  else (seg, fb)

/-- "Calculate window size". -/
def flushCwnd (kcp : Ikcpcb) : UInt32 :=
  let cwnd := imin kcp.sndWnd kcp.rmtWnd
  if kcp.nocwnd = 0 then imin kcp.cwnd cwnd else cwnd

/-- "Move data from snd_queue to snd_buf". The first argument is what is left of `snd_queue`. -/
def moveToSndBuf (cwnd wnd : UInt32) : List IkcpSeg → Ikcpcb → Ikcpcb
  | [], kcp => { kcp with sndQueue := [] }
  | newseg :: rest, kcp =>
    if itimediff kcp.sndNxt (kcp.sndUna + cwnd) < 0 then
      let newseg := { newseg with
        conv := kcp.conv
        cmd := ikcpCmdPush
        wnd := wnd
        ts := kcp.current
        sn := kcp.sndNxt
        una := kcp.rcvNxt
        resendts := kcp.current
        rto := kcp.rxRto.toUInt32
        fastack := 0
        xmit := 0 }
      moveToSndBuf cwnd wnd rest
        { kcp with sndBuf := kcp.sndBuf ++ [newseg], sndNxt := kcp.sndNxt + 1 }
    else { kcp with sndQueue := newseg :: rest }

/-- What the data loop decides about one segment: the segment with its counters moved, whether it
is sent, and which of the loop's flags it raises. -/
structure SendDecision where
  seg : IkcpSeg
  needsend : Bool := false
  resent : Bool := false
  lost : Bool := false
  change : Bool := false

/-- The three-way test of the data loop: first transmission, timeout, fast retransmission. -/
def sendDecision (kcp : Ikcpcb) (resent rtomin : UInt32) (seg : IkcpSeg) : SendDecision :=
  let current := kcp.current
  if seg.xmit = 0 then
    { seg := { seg with
        xmit := seg.xmit + 1
        rto := kcp.rxRto.toUInt32
        resendts := current + kcp.rxRto.toUInt32 + rtomin }
      needsend := true }
  -- timed out: send again, later and later
  else if itimediff current seg.resendts ≥ 0 then
    let rto :=
      if kcp.nodelay = 0 then seg.rto + imax seg.rto kcp.rxRto.toUInt32
      else
        let step := if kcp.nodelay < 2 then seg.rto.toInt32 else kcp.rxRto
        seg.rto + (step / 2).toUInt32
    { seg := { seg with xmit := seg.xmit + 1, rto := rto, resendts := current + rto }
      needsend := true
      resent := true
      lost := true }
  -- enough later segments have been acknowledged
  else if seg.fastack ≥ resent then
    if seg.xmit.toInt32.toInt ≤ kcp.fastlimit ∨ kcp.fastlimit ≤ 0 then
      { seg := { seg with xmit := seg.xmit + 1, fastack := 0, resendts := current + seg.rto }
        needsend := true
        change := true }
    else { seg := seg }
  else { seg := seg }

/-- What the data loop carries from one segment to the next. -/
structure DataState where
  fb : FlushBuf
  xmit : UInt32
  state : UInt32
  lost : Bool := false
  change : Bool := false

/-- One round of the data loop. -/
def flushSegment (kcp : Ikcpcb) (resent rtomin wnd : UInt32) (seg : IkcpSeg) (ds : DataState) :
    IkcpSeg × DataState :=
  let d := sendDecision kcp resent rtomin seg
  let ds := { ds with
    xmit := if d.resent then ds.xmit + 1 else ds.xmit
    lost := ds.lost || d.lost
    change := ds.change || d.change }
  if d.needsend then
    let seg := { d.seg with ts := kcp.current, wnd := wnd, una := kcp.rcvNxt }
    (seg, { ds with
      fb := ds.fb.put kcp.mtu seg
      -- the mark of a dead link, which neither program looks at
      state := if seg.xmit ≥ kcp.deadLink then 0xffffffff else ds.state })
  else (d.seg, ds)

/-- "Flush data segments". -/
def flushData (kcp : Ikcpcb) (resent rtomin wnd : UInt32) :
    List IkcpSeg → DataState → List IkcpSeg × DataState
  | [], ds => ([], ds)
  | seg :: rest, ds =>
    let (seg, ds) := flushSegment kcp resent rtomin wnd seg ds
    let (rest, ds) := flushData kcp resent rtomin wnd rest ds
    (seg :: rest, ds)

/-- "Update ssthresh", the tail of `ikcp_flush`. -/
def updateSsthresh (kcp : Ikcpcb) (resent cwnd : UInt32) (change lost : Bool) : Ikcpcb :=
  let kcp :=
    if change then
      let ssthresh := imax ((kcp.sndNxt - kcp.sndUna) / 2) ikcpThreshMin
      { kcp with
        ssthresh := ssthresh
        cwnd := ssthresh + resent
        incr := (ssthresh + resent) * kcp.mss }
    else kcp
  let kcp :=
    if lost then
      { kcp with ssthresh := imax (cwnd / 2) ikcpThreshMin, cwnd := 1, incr := kcp.mss }
    else kcp
  if kcp.cwnd < 1 then { kcp with cwnd := 1, incr := kcp.mss } else kcp

/-! ## The functions -/

/-- `ikcp_flush`: the control block and the datagrams handed to the output callback, in order. -/
def ikcpFlush (kcp : Ikcpcb) : Ikcpcb × List (List UInt8) :=
  if kcp.updated = 0 then (kcp, [])
  else
    let seg := flushTemplate kcp
    let wnd := seg.wnd
    let (seg, fb) := flushAcks kcp.mtu kcp.acklist seg {}
    let kcp := flushProbe { kcp with acklist := [] }
    let (seg, fb) := flushCommand kcp ikcpAskSend ikcpCmdWask seg fb
    let (_, fb) := flushCommand kcp ikcpAskTell ikcpCmdWins seg fb
    let kcp := { kcp with probe := 0 }
    let cwnd := flushCwnd kcp
    let kcp := moveToSndBuf cwnd wnd kcp.sndQueue kcp
    let resent := if kcp.fastresend > 0 then UInt32.ofInt kcp.fastresend else 0xffffffff
    let rtomin := if kcp.nodelay = 0 then (kcp.rxRto >>> 3).toUInt32 else 0
    let (sndBuf, ds) := flushData kcp resent rtomin wnd kcp.sndBuf
      { fb := fb, xmit := kcp.xmit, state := kcp.state }
    let kcp := { kcp with sndBuf := sndBuf, xmit := ds.xmit, state := ds.state }
    (updateSsthresh kcp resent cwnd ds.change ds.lost, ds.fb.finish)

/-- The head of `ikcp_update`: the clock, and the first call. -/
def updateClock (kcp : Ikcpcb) (current : UInt32) : Ikcpcb :=
  if kcp.updated = 0 then { kcp with current := current, updated := 1, tsFlush := current }
  else { kcp with current := current }

/-- The tail of `ikcp_update`: when the next flush is due. -/
def scheduleFlush (kcp : Ikcpcb) : Ikcpcb :=
  let kcp := { kcp with tsFlush := kcp.tsFlush + kcp.interval }
  if itimediff kcp.current kcp.tsFlush ≥ 0 then
    { kcp with tsFlush := kcp.current + kcp.interval }
  else kcp

/-- `ikcp_update`. -/
def ikcpUpdate (kcp : Ikcpcb) (current : UInt32) : Ikcpcb × List (List UInt8) :=
  let kcp := updateClock kcp current
  let slap := itimediff kcp.current kcp.tsFlush
  -- the clock has jumped: start over from where it is now
  if slap ≥ 10000 ∨ slap < -10000 then
    ikcpFlush (scheduleFlush { kcp with tsFlush := kcp.current })
  else if slap ≥ 0 then ikcpFlush (scheduleFlush kcp)
  else (kcp, [])

end KcpEcho
