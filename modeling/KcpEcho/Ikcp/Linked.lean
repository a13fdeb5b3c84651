import KcpEcho.Base.Ring
import KcpEcho.Ikcp.Flush

/-!
# The control block in memory

The queues as the source has them: segments linked through their nodes into four rings, the heads
of which lie in the control block, with a counter beside each. Every function of `ikcp.c` that
follows a link, allocates or frees a segment, or reads a counter is here once more, in single reads
and writes.

* `ctl` holds the scalar fields; its four lists are not used. What the source computes from scalars
  alone is shared with `KcpEcho.Ikcp.Control` to `KcpEcho.Ikcp.Flush`.
* A run that follows a null or dangling pointer, frees a segment twice or fails an assertion has no
  next state and yields `none`. Addresses are not given out twice.
* The loops carry fuel; running out of it is `none` as well. The number of segments ever allocated
  bounds the length of every ring.
* Allocation succeeds. When it does not, `ikcp_send` and `ikcp_ack_push` stop at an assertion, and
  `ikcp_input` writes through the null pointer. The ack array stays a list, as in
  `KcpEcho.Ikcp.Control`.
-/

namespace KcpEcho

open RingList

/-- The four queues of a control block. -/
inductive Queue
  | sndQueue
  | rcvQueue
  | sndBuf
  | rcvBuf
  deriving DecidableEq

/-- What a `struct IQUEUEHEAD *` points to: a head in the control block, or the node of the segment
at an address. -/
inductive Node
  | null
  | head (q : Queue)
  | seg (p : Ptr)
  deriving DecidableEq

/-- `struct IKCPCB` and the segments in memory. -/
structure LinkedCb where
  ctl : Ikcpcb
  links : Heap Node
  segs : Ptr → Option IkcpSeg := fun _ ↦ none
  brk : Ptr := 0
  nrcvBuf : UInt32 := 0
  nsndBuf : UInt32 := 0
  nrcvQue : UInt32 := 0
  nsndQue : UInt32 := 0

namespace LinkedCb

/-! ## Segments and nodes -/

/-- `ikcp_segment_new`, and the fields the caller sets before it links the node. There is memory:
`ikcp_input` does not look whether it got any. -/
def segmentNew (m : LinkedCb) (seg : IkcpSeg) : LinkedCb × Ptr :=
  ({ m with
    segs := Function.update m.segs m.brk (some seg)
    links := m.links.alloc (.seg m.brk) .null
    brk := m.brk + 1 }, m.brk)

/-- `ikcp_segment_delete`. -/
def segmentDelete (m : LinkedCb) (p : Ptr) : Option LinkedCb :=
  (m.segs p).map fun _ ↦ { m with
    segs := Function.update m.segs p none
    links := m.links.free (.seg p) }

/-- `iqueue_entry`, and the segment read through it. -/
def entry (m : LinkedCb) : Node → Option (Ptr × IkcpSeg)
  | .seg p => (m.segs p).map fun seg ↦ (p, seg)
  | _ => none

/-- Write the fields of a segment. -/
def setSeg (m : LinkedCb) (p : Ptr) (seg : IkcpSeg) : Option LinkedCb :=
  (m.segs p).map fun _ ↦ { m with segs := Function.update m.segs p (some seg) }

/-- `iqueue_init` of a segment's node. -/
def initNode (m : LinkedCb) (p : Ptr) : Option LinkedCb :=
  (m.links.init (.seg p)).map fun links ↦ { m with links := links }

/-- `iqueue_add`. -/
def add (m : LinkedCb) (p : Ptr) (pos : Node) : Option LinkedCb :=
  (m.links.add (.seg p) pos).map fun links ↦ { m with links := links }

/-- `iqueue_add_tail`. -/
def addTail (m : LinkedCb) (p : Ptr) (q : Queue) : Option LinkedCb :=
  (m.links.addTail (.seg p) (.head q)).map fun links ↦ { m with links := links }

/-- `iqueue_del`. -/
def del (m : LinkedCb) (p : Ptr) : Option LinkedCb :=
  (m.links.del .null (.seg p)).map fun links ↦ { m with links := links }

/-- `iqueue_is_empty`. -/
def isEmpty (m : LinkedCb) (q : Queue) : Option Bool := m.links.isEmpty (.head q)

/-- The segment behind the head. -/
def front (m : LinkedCb) (q : Queue) : Option (Ptr × IkcpSeg) := do m.entry (← m.links.next (.head q))

/-- Fuel for a walk over a ring. -/
def fuel (m : LinkedCb) : ℕ := m.brk + 1

/-! ## Creation and release -/

/-- A pointer of a fresh block: only the heads are there, and they point nowhere. -/
def rawLink : Node → Option Node
  | .head _ => some .null
  | _ => none

/-- `ikcp_create`. -/
def ikcpCreate (conv : UInt32) (user : Ptr) : Option LinkedCb := do
  let links ← Heap.init ⟨rawLink, rawLink⟩ (.head .sndQueue)
  let links ← links.init (.head .rcvQueue)
  let links ← links.init (.head .sndBuf)
  let links ← links.init (.head .rcvBuf)
  some { ctl := KcpEcho.ikcpCreate conv user, links := links }

/-- The block as the `KcpContext` constructor leaves it. -/
def configuredKcp (conv : UInt32) (user : Ptr) : Option LinkedCb := do
  let m ← ikcpCreate conv user
  let ctl := ikcpNodelay m.ctl 1 10 2 1
  let ctl := ikcpWndsize ctl 1024 1024
  some { m with ctl := { ctl with stream := 1 } }

/-- One of the four loops of `ikcp_release`. -/
def releaseLoop (q : Queue) : ℕ → LinkedCb → Option LinkedCb
  | 0, _ => none
  | fuel + 1, m => do
    if ← m.isEmpty q then some m
    else
      let (p, _) ← m.front q
      let m ← m.del p
      let m ← m.segmentDelete p
      releaseLoop q fuel m

/-- `ikcp_release`, up to the block itself. -/
def ikcpRelease (m : LinkedCb) : Option LinkedCb := do
  let m ← releaseLoop .sndBuf m.fuel m
  let m ← releaseLoop .rcvBuf m.fuel m
  let m ← releaseLoop .sndQueue m.fuel m
  let m ← releaseLoop .rcvQueue m.fuel m
  some { m with
    ctl := { m.ctl with acklist := [] }
    nrcvBuf := 0
    nsndBuf := 0
    nrcvQue := 0
    nsndQue := 0 }

/-! ## Taking bytes out -/

/-- The loop "move available data from rcv_buf -> rcv_queue". -/
def moveAvailableLoop : ℕ → LinkedCb → Option LinkedCb
  | 0, _ => none
  | fuel + 1, m => do
    if ← m.isEmpty .rcvBuf then some m
    else
      let (p, seg) ← m.front .rcvBuf
      if seg.sn = m.ctl.rcvNxt ∧ m.nrcvQue < m.ctl.rcvWnd then
        let m ← m.del p
        let m ← { m with nrcvBuf := m.nrcvBuf - 1 }.addTail p .rcvQueue
        moveAvailableLoop fuel { m with
          nrcvQue := m.nrcvQue + 1
          ctl := { m.ctl with rcvNxt := m.ctl.rcvNxt + 1 } }
      else some m

/-- The loop of `ikcp_peeksize`. -/
def peekLoop (m : LinkedCb) : ℕ → Node → Option ℕ
  | 0, _ => none
  | fuel + 1, n =>
    if n = .head .rcvQueue then some 0
    else do
      let (_, seg) ← m.entry n
      if seg.frg = 0 then some seg.len
      else
        let rest ← peekLoop m fuel (← m.links.next n)
        some (seg.len + rest)

/-- `ikcp_peeksize`. -/
def ikcpPeeksize (m : LinkedCb) : Option ℤ := do
  if ← m.isEmpty .rcvQueue then some (-1)
  else
    let (_, seg) ← m.front .rcvQueue
    if seg.frg = 0 then some (seg.len : ℤ)
    else if m.nrcvQue < seg.frg + 1 then some (-1)
    else
      let length ← peekLoop m m.fuel (← m.links.next (.head .rcvQueue))
      some (length : ℤ)

/-- The loop "merge fragment" of `ikcp_recv`: what it leaves, and the bytes it copies out. -/
def mergeFragment (ispeek : Bool) : ℕ → Node → LinkedCb → Option (LinkedCb × List UInt8)
  | 0, _, _ => none
  | fuel + 1, n, m =>
    if n = .head .rcvQueue then some (m, [])
    else do
      let (p, seg) ← m.entry n
      let n ← m.links.next n
      let m ← if ispeek then some m else do
        let m ← m.del p
        let m ← m.segmentDelete p
        some { m with nrcvQue := m.nrcvQue - 1 }
      if seg.frg = 0 then some (m, seg.data)
      else
        let (m, data) ← mergeFragment ispeek fuel n m
        some (m, seg.data ++ data)

/-- `ikcp_recv`, with its assertion. -/
def ikcpRecv (m : LinkedCb) (len : ℤ) : Option (LinkedCb × ℤ × List UInt8) := do
  if ← m.isEmpty .rcvQueue then some (m, -1, [])
  else
    let peeksize ← m.ikcpPeeksize
    if peeksize < 0 then some (m, -2, [])
    else if peeksize > |len| then some (m, -3, [])
    else
      let recover : Bool := m.nrcvQue ≥ m.ctl.rcvWnd
      let (m, data) ← mergeFragment (len < 0) m.fuel (← m.links.next (.head .rcvQueue)) m
      if (data.length : ℤ) ≠ peeksize then none
      else
        let m ← moveAvailableLoop m.fuel m
        if m.nrcvQue < m.ctl.rcvWnd ∧ recover then
          some ({ m with ctl := { m.ctl with probe := m.ctl.probe ||| ikcpAskTell } },
            (data.length : ℤ), data)
        else some (m, (data.length : ℤ), data)

/-! ## Putting bytes in -/

/-- The streaming-mode branch of `ikcp_send`: a longer copy takes the place of the last segment. -/
def extendPrevious (m : LinkedCb) (buffer : List UInt8) :
    Option (LinkedCb × List UInt8 × ℕ) := do
  if ← m.isEmpty .sndQueue then some (m, buffer, 0)
  else
    let (o, old) ← m.entry (← m.links.prev (.head .sndQueue))
    if old.len < m.ctl.mss.toNat then
      let capacity := m.ctl.mss.toNat - old.len
      let extend := if buffer.length < capacity then buffer.length else capacity
      let (m, p) := m.segmentNew { data := old.data ++ buffer.take extend, frg := 0 }
      let m ← m.addTail p .sndQueue
      let m ← m.del o
      let m ← m.initNode o
      let m ← m.segmentDelete o
      some (m, buffer.drop extend, extend)
    else some (m, buffer, 0)

/-- The loop "fragment" of `ikcp_send`. -/
def fragment (mss : ℕ) (stream : ℤ) : ℕ → List UInt8 → LinkedCb → Option LinkedCb
  | 0, _, m => some m
  | i + 1, buffer, m => do
    let (m, p) := m.segmentNew
      { data := buffer.take mss, frg := if stream = 0 then UInt32.ofNat i else 0 }
    let m ← m.initNode p
    let m ← m.addTail p .sndQueue
    fragment mss stream i (buffer.drop mss) { m with nsndQue := m.nsndQue + 1 }

/-- `ikcp_send`. -/
def ikcpSend (m : LinkedCb) (buffer : List UInt8) : Option (LinkedCb × ℤ) := do
  let (m, buffer, sent) ←
    (if m.ctl.stream ≠ 0 then m.extendPrevious buffer else some (m, buffer, 0))
  if m.ctl.stream ≠ 0 ∧ buffer.length = 0 then some (m, (sent : ℤ))
  else
    let mss := m.ctl.mss.toNat
    let count := if buffer.length ≤ mss then 1 else (buffer.length + mss - 1) / mss
    if count ≥ ikcpWndRcv.toNat then
      if m.ctl.stream ≠ 0 ∧ sent > 0 then some (m, (sent : ℤ)) else some (m, -2)
    else
      let count := if count = 0 then 1 else count
      let m ← fragment mss m.ctl.stream count buffer m
      some (m, ((sent + buffer.length : ℕ) : ℤ))

/-! ## Acknowledgements -/

/-- `ikcp_shrink_buf`. -/
def ikcpShrinkBuf (m : LinkedCb) : Option LinkedCb := do
  let n ← m.links.next (.head .sndBuf)
  if n ≠ .head .sndBuf then
    let (_, seg) ← m.entry n
    some { m with ctl := { m.ctl with sndUna := seg.sn } }
  else some { m with ctl := { m.ctl with sndUna := m.ctl.sndNxt } }

/-- Unlink and free a segment of `snd_buf`. -/
def dropSent (m : LinkedCb) (p : Ptr) : Option LinkedCb := do
  let m ← m.del p
  let m ← m.segmentDelete p
  some { m with nsndBuf := m.nsndBuf - 1 }

/-- The loop of `ikcp_parse_ack`. -/
def parseAckLoop (sn : UInt32) : ℕ → Node → LinkedCb → Option LinkedCb
  | 0, _, _ => none
  | fuel + 1, n, m =>
    if n = .head .sndBuf then some m
    else do
      let (p, seg) ← m.entry n
      let next ← m.links.next n
      if sn = seg.sn then m.dropSent p
      else if itimediff sn seg.sn < 0 then some m
      else parseAckLoop sn fuel next m

/-- `ikcp_parse_ack`. -/
def ikcpParseAck (m : LinkedCb) (sn : UInt32) : Option LinkedCb :=
  if itimediff sn m.ctl.sndUna < 0 ∨ itimediff sn m.ctl.sndNxt ≥ 0 then some m
  else do parseAckLoop sn m.fuel (← m.links.next (.head .sndBuf)) m

/-- The loop of `ikcp_parse_una`. -/
def parseUnaLoop (una : UInt32) : ℕ → Node → LinkedCb → Option LinkedCb
  | 0, _, _ => none
  | fuel + 1, n, m =>
    if n = .head .sndBuf then some m
    else do
      let (p, seg) ← m.entry n
      let next ← m.links.next n
      if itimediff una seg.sn > 0 then parseUnaLoop una fuel next (← m.dropSent p)
      else some m

/-- `ikcp_parse_una`. -/
def ikcpParseUna (m : LinkedCb) (una : UInt32) : Option LinkedCb := do
  parseUnaLoop una m.fuel (← m.links.next (.head .sndBuf)) m

/-- The loop of `ikcp_parse_fastack`. -/
def parseFastackLoop (sn : UInt32) : ℕ → Node → LinkedCb → Option LinkedCb
  | 0, _, _ => none
  | fuel + 1, n, m =>
    if n = .head .sndBuf then some m
    else do
      let (p, seg) ← m.entry n
      let next ← m.links.next n
      if itimediff sn seg.sn < 0 then some m
      else if sn ≠ seg.sn then
        parseFastackLoop sn fuel next (← m.setSeg p { seg with fastack := seg.fastack + 1 })
      else parseFastackLoop sn fuel next m

/-- `ikcp_parse_fastack`. -/
def ikcpParseFastack (m : LinkedCb) (sn _ts : UInt32) : Option LinkedCb :=
  if itimediff sn m.ctl.sndUna < 0 ∨ itimediff sn m.ctl.sndNxt ≥ 0 then some m
  else do parseFastackLoop sn m.fuel (← m.links.next (.head .sndBuf)) m

/-! ## Data -/

/-- The backward scan of `ikcp_parse_data`: where it stops, and `repeat`. -/
def insertPosition (m : LinkedCb) (sn : UInt32) : ℕ → Node → Option (Node × Bool)
  | 0, _ => none
  | fuel + 1, n =>
    if n = .head .rcvBuf then some (n, false)
    else do
      let (_, seg) ← m.entry n
      let prev ← m.links.prev n
      if seg.sn = sn then some (n, true)
      else if itimediff sn seg.sn > 0 then some (n, false)
      else insertPosition m sn fuel prev

/-- Link a segment into `rcv_buf`. -/
def insertNew (m : LinkedCb) (p : Ptr) (pos : Node) : Option LinkedCb := do
  let m ← m.initNode p
  let m ← m.add p pos
  some { m with nrcvBuf := m.nrcvBuf + 1 }

/-- `ikcp_parse_data` of the segment at `p`. -/
def ikcpParseData (m : LinkedCb) (p : Ptr) : Option LinkedCb := do
  let (_, newseg) ← m.entry (.seg p)
  if itimediff newseg.sn (m.ctl.rcvNxt + m.ctl.rcvWnd) ≥ 0 ∨
      itimediff newseg.sn m.ctl.rcvNxt < 0 then
    m.segmentDelete p
  else
    let (pos, repeated) ← m.insertPosition newseg.sn m.fuel (← m.links.prev (.head .rcvBuf))
    let m ← (if repeated then m.segmentDelete p else m.insertNew p pos)
    moveAvailableLoop m.fuel m

/-! ## The decoding loop -/

/-- The control block and the locals of `ikcp_input`. -/
structure InputState where
  kcp : LinkedCb
  flag : Bool := false
  maxack : UInt32 := 0
  latestTs : UInt32 := 0

/-- What every segment that passed the checks does first. -/
def inputHead (m : LinkedCb) (h : IkcpHeader) : Option LinkedCb := do
  let m ← { m with ctl := { m.ctl with rmtWnd := h.wnd.toUInt32 } }.ikcpParseUna h.una
  m.ikcpShrinkBuf

/-- The `IKCP_CMD_ACK` branch. -/
def inputAck (st : InputState) (h : IkcpHeader) : Option InputState := do
  let m ← { st.kcp with ctl := inputRtt st.kcp.ctl h.ts }.ikcpParseAck h.sn
  let m ← m.ikcpShrinkBuf
  if st.flag = false then some { kcp := m, flag := true, maxack := h.sn, latestTs := h.ts }
  else if itimediff h.sn st.maxack > 0 then
    some { st with kcp := m, maxack := h.sn, latestTs := h.ts }
  else some { st with kcp := m }

/-- The `IKCP_CMD_PUSH` branch. -/
def inputPush (m : LinkedCb) (h : IkcpHeader) (data : List UInt8) : Option LinkedCb :=
  if inWindow m.ctl h.sn then
    let m := { m with ctl := ikcpAckPush m.ctl h.sn h.ts }
    if itimediff h.sn m.ctl.rcvNxt ≥ 0 then
      let (m, p) := m.segmentNew (h.segment data)
      m.ikcpParseData p
    else some m
  else some m

/-- What one segment that passed the checks does. -/
def inputSeg (st : InputState) (h : IkcpHeader) (data : List UInt8) : Option InputState := do
  let m ← st.kcp.inputHead h
  let st := { st with kcp := m }
  if h.cmd.toUInt32 = ikcpCmdAck then inputAck st h
  else if h.cmd.toUInt32 = ikcpCmdPush then
    let m ← st.kcp.inputPush h data
    some { st with kcp := m }
  else if h.cmd.toUInt32 = ikcpCmdWask then
    some { st with kcp := { st.kcp with ctl := inputWask st.kcp.ctl } }
  else some st

/-- The decoding loop. -/
def inputLoop : ℕ → InputState → List UInt8 → Option (InputState × ℤ)
  | 0, st, _ => some (st, 0)
  | fuel + 1, st, data =>
    if data.length < ikcpOverhead then some (st, 0)
    else
      let (h, rest) := decodeHeader data
      match headerError st.kcp.ctl.conv h rest.length with
      | some err => some (st, err)
      | none => do
        let st ← inputSeg st h (rest.take h.len.toNat)
        inputLoop fuel st (rest.drop h.len.toNat)

/-- The end of `ikcp_input`. -/
def inputFinish (prevUna : UInt32) (st : InputState) : Option LinkedCb := do
  let m ← (if st.flag then st.kcp.ikcpParseFastack st.maxack st.latestTs else some st.kcp)
  if itimediff m.ctl.sndUna prevUna > 0 then some { m with ctl := updateCwnd m.ctl } else some m

/-- `ikcp_input`. -/
def ikcpInput (m : LinkedCb) (data : List UInt8) : Option (LinkedCb × ℤ) :=
  if data.length < ikcpOverhead then some (m, -1)
  else do
    let (st, ret) ← inputLoop data.length { kcp := m } data
    if ret < 0 then some (st.kcp, ret)
    else
      let m' ← inputFinish m.ctl.sndUna st
      some (m', 0)

/-! ## `ikcp_flush` and `ikcp_update` -/

/-- `ikcp_wnd_unused`, from the counter. -/
def ikcpWndUnused (m : LinkedCb) : UInt32 :=
  if m.nrcvQue < m.ctl.rcvWnd then m.ctl.rcvWnd - m.nrcvQue else 0

/-- The local `seg` of `ikcp_flush`. -/
def flushTemplate (m : LinkedCb) : IkcpSeg where
  conv := m.ctl.conv
  cmd := ikcpCmdAck
  frg := 0
  wnd := m.ikcpWndUnused
  una := m.ctl.rcvNxt
  sn := 0
  ts := 0

/-- "Move data from snd_queue to snd_buf". -/
def moveToSndBuf (cwnd wnd : UInt32) : ℕ → LinkedCb → Option LinkedCb
  | 0, _ => none
  | fuel + 1, m =>
    if itimediff m.ctl.sndNxt (m.ctl.sndUna + cwnd) < 0 then do
      if ← m.isEmpty .sndQueue then some m
      else
        let (p, newseg) ← m.front .sndQueue
        let m ← m.del p
        let m ← m.addTail p .sndBuf
        let m := { m with nsndQue := m.nsndQue - 1, nsndBuf := m.nsndBuf + 1 }
        let m ← m.setSeg p { newseg with
          conv := m.ctl.conv
          cmd := ikcpCmdPush
          wnd := wnd
          ts := m.ctl.current
          sn := m.ctl.sndNxt
          una := m.ctl.rcvNxt
          resendts := m.ctl.current
          rto := m.ctl.rxRto.toUInt32
          fastack := 0
          xmit := 0 }
        moveToSndBuf cwnd wnd fuel { m with ctl := { m.ctl with sndNxt := m.ctl.sndNxt + 1 } }
    else some m

/-- "Flush data segments". -/
def flushData (resent rtomin wnd : UInt32) :
    ℕ → Node → LinkedCb → DataState → Option (LinkedCb × DataState)
  | 0, _, _, _ => none
  | fuel + 1, n, m, ds =>
    if n = .head .sndBuf then some (m, ds)
    else do
      let (p, segment) ← m.entry n
      let (segment, ds) := flushSegment m.ctl resent rtomin wnd segment ds
      let m ← m.setSeg p segment
      flushData resent rtomin wnd fuel (← m.links.next n) m ds

/-- `ikcp_flush`. -/
def ikcpFlush (m : LinkedCb) : Option (LinkedCb × List (List UInt8)) :=
  if m.ctl.updated = 0 then some (m, [])
  else do
    let seg := m.flushTemplate
    let wnd := seg.wnd
    let (seg, fb) := flushAcks m.ctl.mtu m.ctl.acklist seg {}
    let ctl := flushProbe { m.ctl with acklist := [] }
    let (seg, fb) := flushCommand ctl ikcpAskSend ikcpCmdWask seg fb
    let (_, fb) := flushCommand ctl ikcpAskTell ikcpCmdWins seg fb
    let ctl := { ctl with probe := 0 }
    let cwnd := flushCwnd ctl
    let m := { m with ctl := ctl }
    let m ← moveToSndBuf cwnd wnd m.fuel m
    let resent := if m.ctl.fastresend > 0 then UInt32.ofInt m.ctl.fastresend else 0xffffffff
    let rtomin := if m.ctl.nodelay = 0 then (m.ctl.rxRto >>> 3).toUInt32 else 0
    let (m, ds) ← flushData resent rtomin wnd m.fuel (← m.links.next (.head .sndBuf)) m
      { fb := fb, xmit := m.ctl.xmit, state := m.ctl.state }
    let ctl := { m.ctl with xmit := ds.xmit, state := ds.state }
    some ({ m with ctl := updateSsthresh ctl resent cwnd ds.change ds.lost }, ds.fb.finish)

/-- `ikcp_update`. -/
def ikcpUpdate (m : LinkedCb) (current : UInt32) : Option (LinkedCb × List (List UInt8)) :=
  let m := { m with ctl := updateClock m.ctl current }
  let slap := itimediff m.ctl.current m.ctl.tsFlush
  if slap ≥ 10000 ∨ slap < -10000 then
    { m with ctl := scheduleFlush { m.ctl with tsFlush := m.ctl.current } }.ikcpFlush
  else if slap ≥ 0 then { m with ctl := scheduleFlush m.ctl }.ikcpFlush
  else some (m, [])

end LinkedCb

end KcpEcho
