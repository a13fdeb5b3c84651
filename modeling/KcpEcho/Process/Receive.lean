import KcpEcho.Ikcp.Input

/-!
# The receive loops of the two programs

Both `udp_recv_cb` end a KCP datagram with a loop over `ikcp_recv`. The server hands every message
straight back to `ikcp_send`; the client drops it. Each round takes at least one segment out of the
control block, so the number of segments it holds is fuel enough (`queued_ikcpRecv_lt`).
-/

namespace KcpEcho

/-- The size of the buffer `alloc_cb` hands out. -/
def allocSize : ℤ := 64 * 1024

/-- The segments a control block holds on its receiving side. -/
def Ikcpcb.queued (kcp : Ikcpcb) : ℕ := kcp.rcvQueue.length + kcp.rcvBuf.length

/-- What the echo loop has taken out with `ikcp_recv` and handed to `ikcp_send`. -/
structure EchoLog where
  taken : List UInt8 := []
  passed : List UInt8 := []

/-- The loop "echo" of the server. -/
def echoLoop : ℕ → Ikcpcb → EchoLog → Ikcpcb × EchoLog
  | 0, kcp, log => (kcp, log)
  | fuel + 1, kcp, log =>
    let (kcp, nread, data) := ikcpRecv kcp allocSize
    if nread < 0 then (kcp, log)
    else
      let log := { log with taken := log.taken ++ data }
      let (kcp, nread) := ikcpSend kcp data
      let log := { log with passed := log.passed ++ data }
      if nread < 0 then (kcp, log) else echoLoop fuel kcp log

def echo (kcp : Ikcpcb) : Ikcpcb × EchoLog := echoLoop (kcp.queued + 1) kcp {}

/-- The same loop of the client, where the call of `ikcp_send` is commented out. -/
def drainLoop : ℕ → Ikcpcb → List UInt8 → Ikcpcb × List UInt8
  | 0, kcp, taken => (kcp, taken)
  | fuel + 1, kcp, taken =>
    let (kcp, nread, data) := ikcpRecv kcp allocSize
    if nread < 0 then (kcp, taken) else drainLoop fuel kcp (taken ++ data)

def drain (kcp : Ikcpcb) : Ikcpcb × List UInt8 := drainLoop (kcp.queued + 1) kcp []

/-! ## The loops come to an end -/

theorem queued_moveAvailableLoop (segs : List IkcpSeg) (kcp : Ikcpcb) :
    (moveAvailableLoop segs kcp).queued = kcp.rcvQueue.length + segs.length := by
  induction segs generalizing kcp with
  | nil => rfl
  | cons seg rest ih =>
    rw [moveAvailableLoop]
    split
    · rw [ih]
      simp only [List.length_append, List.length_cons, List.length_nil]
      omega
    · rfl

theorem length_mergeFragment_snd_lt {queue : List IkcpSeg} (h : queue ≠ []) :
    (mergeFragment queue).2.length < queue.length := by
  induction queue with
  | nil => exact absurd rfl h
  | cons seg rest ih =>
    rw [mergeFragment]
    split
    · exact Nat.lt_succ_self _
    · by_cases hrest : rest = []
      · subst hrest
        exact Nat.one_pos
      · exact (ih hrest).trans (Nat.lt_succ_self _)

/-- **Progress.** An `ikcp_recv` that does not fail takes at least one segment out. -/
theorem queued_ikcpRecv_lt {kcp : Ikcpcb} (h : 0 ≤ (ikcpRecv kcp allocSize).2.1) :
    (ikcpRecv kcp allocSize).1.queued < kcp.queued := by
  rcases ikcpRecv_cases kcp (show 0 ≤ allocSize by decide) with
    ⟨r, hr, heq, -⟩ | ⟨hne, -, -, probe, heq⟩
  · rw [heq] at h
    exact absurd h (not_le.mpr hr)
  · have hlt := length_mergeFragment_snd_lt hne
    have hq := queued_moveAvailableLoop kcp.rcvBuf
      { kcp with rcvQueue := (mergeFragment kcp.rcvQueue).2 }
    rw [heq]
    calc (recvMoved kcp).queued = (mergeFragment kcp.rcvQueue).2.length + kcp.rcvBuf.length := hq
      _ < kcp.queued := Nat.add_lt_add_right hlt _

end KcpEcho
