import KcpEcho.Ikcp.Segment
import Mathlib.Algebra.Order.Group.Unbundled.Abs

/-!
# The KCP control block, and the user side of it

`struct IKCPCB` with its creation and configuration, and the two functions the program calls to
take bytes out (`ikcp_recv`) and to put bytes in (`ikcp_send`).

## Representation

* The four queues are lists, head first. The counters `nrcv_que`, `nrcv_buf`, `nsnd_que` and
  `nsnd_buf` move in step with them in the source and are read off as their lengths; of the four
  only `nrcv_que` is ever consulted.
* `acklist`, `ackcount` and `ackblock` are one list of pairs `(sn, ts)`. It stands for the array as
  long as fewer than `2 ^ 30` acknowledgements are pending: `ackcount` is an `IUINT32` and indexes
  the array by `ackcount * 2`, and `ikcp_flush` walks it with an `int`.
* `buffer` is scratch space of `ikcp_flush` and lives there; `output` is chosen by the program and
  shows as the list of datagrams `ikcp_flush` returns; the log hooks stay unset in this program.
* `int` fields are integers, `IINT32` fields are `Int32`, everything else is `UInt32`.

Allocation does not fail here, so the `return -2` behind `ikcp_segment_new` has no counterpart.
-/

namespace KcpEcho

/-- An address of the process. Blocks are never given an address twice. -/
abbrev Ptr := ℕ

/-- `struct IKCPCB`. -/
structure Ikcpcb where
  conv : UInt32
  mtu : UInt32
  mss : UInt32
  state : UInt32
  sndUna : UInt32
  sndNxt : UInt32
  rcvNxt : UInt32
  ssthresh : UInt32
  rxRttval : Int32
  rxSrtt : Int32
  rxRto : Int32
  rxMinrto : Int32
  sndWnd : UInt32
  rcvWnd : UInt32
  rmtWnd : UInt32
  cwnd : UInt32
  probe : UInt32
  current : UInt32
  interval : UInt32
  tsFlush : UInt32
  xmit : UInt32
  nodelay : UInt32
  updated : UInt32
  tsProbe : UInt32
  probeWait : UInt32
  deadLink : UInt32
  incr : UInt32
  sndQueue : List IkcpSeg
  rcvQueue : List IkcpSeg
  sndBuf : List IkcpSeg
  rcvBuf : List IkcpSeg
  acklist : List (UInt32 × UInt32)
  user : Ptr
  fastresend : ℤ
  fastlimit : ℤ
  nocwnd : ℤ
  stream : ℤ
  deriving DecidableEq, Repr

/-- The counter `nrcv_que`. -/
def Ikcpcb.nrcvQue (kcp : Ikcpcb) : ℕ := kcp.rcvQueue.length

/-! ## Creation and configuration -/

/-- `ikcp_create`. -/
def ikcpCreate (conv : UInt32) (user : Ptr) : Ikcpcb where
  conv := conv
  user := user
  sndUna := 0
  sndNxt := 0
  rcvNxt := 0
  tsProbe := 0
  probeWait := 0
  sndWnd := ikcpWndSnd
  rcvWnd := ikcpWndRcv
  rmtWnd := ikcpWndRcv
  cwnd := 0
  incr := 0
  probe := 0
  mtu := ikcpMtuDef
  mss := ikcpMtuDef - UInt32.ofNat ikcpOverhead
  stream := 0
  sndQueue := []
  rcvQueue := []
  sndBuf := []
  rcvBuf := []
  state := 0
  acklist := []
  rxSrtt := 0
  rxRttval := 0
  rxRto := ikcpRtoDef.toInt32
  rxMinrto := ikcpRtoMin.toInt32
  current := 0
  interval := ikcpInterval
  tsFlush := ikcpInterval
  nodelay := 0
  updated := 0
  ssthresh := ikcpThreshInit
  fastresend := 0
  fastlimit := ikcpFastackLimit
  nocwnd := 0
  xmit := 0
  deadLink := ikcpDeadlink

/-- `ikcp_nodelay`. -/
def ikcpNodelay (kcp : Ikcpcb) (nodelay interval resend nc : ℤ) : Ikcpcb :=
  let kcp :=
    if nodelay ≥ 0 then
      { kcp with
        nodelay := UInt32.ofInt nodelay
        rxMinrto := if nodelay ≠ 0 then ikcpRtoNdl.toInt32 else ikcpRtoMin.toInt32 }
    else kcp
  let kcp :=
    if interval ≥ 0 then
      { kcp with
        interval := UInt32.ofInt
          (if interval > 5000 then 5000 else if interval < 10 then 10 else interval) }
    else kcp
  let kcp := if resend ≥ 0 then { kcp with fastresend := resend } else kcp
  if nc ≥ 0 then { kcp with nocwnd := nc } else kcp

/-- `ikcp_wndsize`. -/
def ikcpWndsize (kcp : Ikcpcb) (sndwnd rcvwnd : ℤ) : Ikcpcb :=
  let kcp := if sndwnd > 0 then { kcp with sndWnd := UInt32.ofInt sndwnd } else kcp
  if rcvwnd > 0 then { kcp with rcvWnd := imax (UInt32.ofInt rcvwnd) ikcpWndRcv } else kcp

/-- The control block the `KcpContext` constructor sets up: created, tuned, and switched to
streaming mode. -/
def configuredKcp (conv : UInt32) (user : Ptr) : Ikcpcb :=
  let kcp := ikcpCreate conv user
  let kcp := ikcpNodelay kcp 1 10 2 1
  let kcp := ikcpWndsize kcp 1024 1024
  { kcp with stream := 1 }

/-! ## Taking bytes out -/

/-- The loop "move available data from rcv_buf -> rcv_queue", which `ikcp_parse_data` and
`ikcp_recv` share word for word. The argument is what is left of `rcv_buf`. -/
def moveAvailableLoop : List IkcpSeg → Ikcpcb → Ikcpcb
  | [], kcp => { kcp with rcvBuf := [] }
  | seg :: rest, kcp =>
    if seg.sn = kcp.rcvNxt ∧ kcp.nrcvQue < kcp.rcvWnd.toNat then
      moveAvailableLoop rest
        { kcp with rcvQueue := kcp.rcvQueue ++ [seg], rcvNxt := kcp.rcvNxt + 1 }
    else { kcp with rcvBuf := seg :: rest }

def moveAvailable (kcp : Ikcpcb) : Ikcpcb := moveAvailableLoop kcp.rcvBuf kcp

/-- The loop of `ikcp_peeksize`: the length up to and including the first `frg = 0`. -/
def peekLength : List IkcpSeg → ℕ
  | [] => 0
  | seg :: rest => if seg.frg = 0 then seg.len else seg.len + peekLength rest

/-- `ikcp_peeksize`. -/
def ikcpPeeksize (kcp : Ikcpcb) : ℤ :=
  match kcp.rcvQueue with
  | [] => -1
  | seg :: _ =>
    if seg.frg = 0 then seg.len
    -- the first segment counts the fragments behind it
    else if kcp.nrcvQue < (seg.frg + 1).toNat then -1
    else peekLength kcp.rcvQueue

/-- The loop "merge fragment" of `ikcp_recv`: the bytes copied out and the queue left behind. -/
def mergeFragment : List IkcpSeg → List UInt8 × List IkcpSeg
  | [] => ([], [])
  | seg :: rest =>
    if seg.frg = 0 then (seg.data, rest)
    else (seg.data ++ (mergeFragment rest).1, (mergeFragment rest).2)

/-- `ikcp_recv` into a buffer of `len` bytes (a negative `len` peeks). The result is the control
block, the returned size or error, and the bytes copied out. -/
def ikcpRecv (kcp : Ikcpcb) (len : ℤ) : Ikcpcb × ℤ × List UInt8 :=
  if kcp.rcvQueue = [] then (kcp, -1, [])
  else
    let peeksize := ikcpPeeksize kcp
    if peeksize < 0 then (kcp, -2, [])
    else if peeksize > |len| then (kcp, -3, [])
    else
      let recover : Bool := kcp.nrcvQue ≥ kcp.rcvWnd.toNat
      let (data, rest) := mergeFragment kcp.rcvQueue
      -- a negative length peeks, and leaves the message where it is
      let kcp := if len < 0 then kcp else { kcp with rcvQueue := rest }
      let kcp := moveAvailable kcp
      -- fast recover: tell the peer that the window opened again
      let kcp :=
        if kcp.nrcvQue < kcp.rcvWnd.toNat ∧ recover then
          { kcp with probe := kcp.probe ||| ikcpAskTell }
        else kcp
      (kcp, data.length, data)

/-- The two walks over the receive queue agree, which is what `assert(len == peeksize)` says. -/
theorem length_mergeFragment (queue : List IkcpSeg) :
    (mergeFragment queue).1.length = peekLength queue := by
  induction queue with
  | nil => rfl
  | cons seg rest ih =>
    rw [mergeFragment, peekLength]
    split
    · rfl
    · rw [List.length_append, ih, IkcpSeg.len]

/-- The block after the head message has been taken out and the receive window has moved up. -/
def recvMoved (kcp : Ikcpcb) : Ikcpcb :=
  moveAvailable { kcp with rcvQueue := (mergeFragment kcp.rcvQueue).2 }

/-- **What `ikcp_recv` can do** with a real buffer: it fails and changes nothing, or it takes the
head message out; only `probe` remembers more. -/
theorem ikcpRecv_cases (kcp : Ikcpcb) {len : ℤ} (hlen : 0 ≤ len) :
    (∃ r < 0, ikcpRecv kcp len = (kcp, r, []) ∧
      (kcp.rcvQueue = [] ∨ ikcpPeeksize kcp < 0 ∨ len < ikcpPeeksize kcp)) ∨
    (kcp.rcvQueue ≠ [] ∧ 0 ≤ ikcpPeeksize kcp ∧ ikcpPeeksize kcp ≤ len ∧
      ∃ probe, ikcpRecv kcp len =
        ({ recvMoved kcp with probe := probe }, ((mergeFragment kcp.rcvQueue).1.length : ℤ),
          (mergeFragment kcp.rcvQueue).1)) := by
  rw [ikcpRecv]
  by_cases hempty : kcp.rcvQueue = []
  · exact .inl ⟨-1, by decide, if_pos hempty, .inl hempty⟩
  rw [if_neg hempty]
  dsimp only
  by_cases hpeek : ikcpPeeksize kcp < 0
  · exact .inl ⟨-2, by decide, if_pos hpeek, .inr (.inl hpeek)⟩
  rw [if_neg hpeek, abs_of_nonneg hlen]
  by_cases hbig : ikcpPeeksize kcp > len
  · exact .inl ⟨-3, by decide, if_pos hbig, .inr (.inr hbig)⟩
  rw [if_neg hbig, if_neg (not_lt.mpr hlen)]
  refine .inr ⟨hempty, not_lt.mp hpeek, not_lt.mp hbig, ?_⟩
  split
  · exact ⟨_, rfl⟩
  · -- no fast recovery, so the probe flags stay
    exact ⟨(recvMoved kcp).probe, rfl⟩

/-! ## Putting bytes in -/

/-- The streaming-mode branch of `ikcp_send`: bytes go into the room the last queued segment has
left. The result is the control block, the bytes not yet placed and the number placed. -/
def extendPrevious (kcp : Ikcpcb) (buffer : List UInt8) : Ikcpcb × List UInt8 × ℕ :=
  match kcp.sndQueue.getLast? with
  | none => (kcp, buffer, 0)
  | some old =>
    if old.len < kcp.mss.toNat then
      let capacity := kcp.mss.toNat - old.len
      let extend := if buffer.length < capacity then buffer.length else capacity
      let seg : IkcpSeg := { data := old.data ++ buffer.take extend, frg := 0 }
      ({ kcp with sndQueue := kcp.sndQueue.dropLast ++ [seg] }, buffer.drop extend, extend)
    else (kcp, buffer, 0)

/-- The loop "fragment" of `ikcp_send`: `count` segments of at most `mss` bytes each. -/
def fragment (mss : ℕ) (stream : ℤ) : ℕ → List UInt8 → List IkcpSeg
  | 0, _ => []
  | i + 1, buffer =>
    { data := buffer.take mss, frg := if stream = 0 then UInt32.ofNat i else 0 } ::
      fragment mss stream i (buffer.drop mss)

/-- `ikcp_send` of a whole buffer. The callers pass a buffer and its exact size, so `len < 0` and a
null buffer do not occur. -/
def ikcpSend (kcp : Ikcpcb) (buffer : List UInt8) : Ikcpcb × ℤ :=
  let (kcp, buffer, sent) :=
    if kcp.stream ≠ 0 then extendPrevious kcp buffer else (kcp, buffer, 0)
  if kcp.stream ≠ 0 ∧ buffer.length = 0 then (kcp, sent)
  else
    let mss := kcp.mss.toNat
    let count := if buffer.length ≤ mss then 1 else (buffer.length + mss - 1) / mss
    if count ≥ ikcpWndRcv.toNat then
      -- what went into the previous segment stays there: a short count, not an error
      if kcp.stream ≠ 0 ∧ sent > 0 then (kcp, sent) else (kcp, -2)
    else
      let count := if count = 0 then 1 else count
      ({ kcp with sndQueue := kcp.sndQueue ++ fragment mss kcp.stream count buffer },
        (sent + buffer.length : ℕ))

end KcpEcho
