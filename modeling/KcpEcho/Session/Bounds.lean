import KcpEcho.Session.Usage

/-!
# What a peer can make a session hold

A control block under datagrams of any bytes, hostile ones included, as long as each fits the
buffer of `alloc_cb`. The segments such a datagram carries are shorter than the datagram, their
fragment numbers come from a single byte, and no more than a window of them waits to be taken out.
So the lengths that `ikcp_peeksize` and `ikcp_recv` add up stay far below `2 ^ 31`: the C additions
do not overflow (`RecvBounded.peekLength_lt`).
-/

namespace KcpEcho

/-! ## The two moves on the receiving side -/

/-- The move from `rcv_buf` to `rcv_queue` takes segments from the front of the one to the end of
the other. -/
theorem moveAvailableLoop_split (segs : List IkcpSeg) (kcp : Ikcpcb) :
    ∃ moved, segs = moved ++ (moveAvailableLoop segs kcp).rcvBuf ∧
      (moveAvailableLoop segs kcp).rcvQueue = kcp.rcvQueue ++ moved := by
  induction segs generalizing kcp with
  | nil => exact ⟨[], rfl, (List.append_nil _).symm⟩
  | cons seg rest ih =>
    rw [moveAvailableLoop]
    split
    · obtain ⟨moved, hbuf, hqueue⟩ :=
        ih { kcp with rcvQueue := kcp.rcvQueue ++ [seg], rcvNxt := kcp.rcvNxt + 1 }
      refine ⟨seg :: moved, ?_, ?_⟩
      · rw [List.cons_append, ← hbuf]
      · rw [hqueue, List.append_assoc, List.singleton_append]
    · exact ⟨[], rfl, (List.append_nil _).symm⟩

/-- It stops when the window is full. -/
theorem length_moveAvailableLoop_le (segs : List IkcpSeg) {kcp : Ikcpcb}
    (h : kcp.rcvQueue.length ≤ kcp.rcvWnd.toNat) :
    (moveAvailableLoop segs kcp).rcvQueue.length ≤ kcp.rcvWnd.toNat := by
  induction segs generalizing kcp with
  | nil => exact h
  | cons seg rest ih =>
    rw [moveAvailableLoop]
    split
    · rename_i hroom
      have hlt : kcp.rcvQueue.length < kcp.rcvWnd.toNat := hroom.2
      apply @ih { kcp with rcvQueue := kcp.rcvQueue ++ [seg], rcvNxt := kcp.rcvNxt + 1 }
      rw [List.length_append, List.length_singleton]
      exact hlt
    · exact h

/-- The message `ikcp_recv` merges is made of the segments it takes off the front of the queue. -/
theorem mergeFragment_split (queue : List IkcpSeg) :
    ∃ removed, queue = removed ++ (mergeFragment queue).2 ∧
      (mergeFragment queue).1 = removed.flatMap IkcpSeg.data := by
  induction queue with
  | nil => exact ⟨[], rfl, rfl⟩
  | cons seg rest ih =>
    rw [mergeFragment]
    split
    · exact ⟨[seg], rfl, by simp⟩
    · obtain ⟨removed, hrest, hdata⟩ := ih
      refine ⟨seg :: removed, ?_, ?_⟩
      · rw [List.cons_append, ← hrest]
      · rw [List.flatMap_cons, ← hdata]

/-- Together: an `ikcp_recv` takes segments off the front of the queue and refills its end. -/
theorem recvMoved_split (kcp : Ikcpcb) :
    ∃ removed moved, kcp.rcvBuf = moved ++ (recvMoved kcp).rcvBuf ∧
      kcp.rcvQueue ++ moved = removed ++ (recvMoved kcp).rcvQueue ∧
      (mergeFragment kcp.rcvQueue).1 = removed.flatMap IkcpSeg.data := by
  obtain ⟨removed, hqueue, hdata⟩ := mergeFragment_split kcp.rcvQueue
  obtain ⟨moved, hbuf, hmoved⟩ := moveAvailableLoop_split kcp.rcvBuf
    { kcp with rcvQueue := (mergeFragment kcp.rcvQueue).2 }
  refine ⟨removed, moved, hbuf, ?_, hdata⟩
  calc kcp.rcvQueue ++ moved = removed ++ ((mergeFragment kcp.rcvQueue).2 ++ moved) := by
        rw [← List.append_assoc, ← hqueue]
    _ = removed ++ (recvMoved kcp).rcvQueue := by
        rw [← hmoved]
        rfl

theorem mem_of_insertBackward {newseg : IkcpSeg} {segs buf : List IkcpSeg}
    (h : insertBackward newseg segs = some buf) : ∀ seg ∈ buf, seg = newseg ∨ seg ∈ segs := by
  induction segs generalizing buf with
  | nil =>
    obtain rfl := Option.some.inj h
    exact fun seg hseg ↦ .inl (List.mem_singleton.mp hseg)
  | cons first rest ih =>
    rw [insertBackward] at h
    split_ifs at h
    · obtain rfl := Option.some.inj h
      exact fun seg hseg ↦ List.mem_cons.mp hseg
    · obtain ⟨buf', hbuf', rfl⟩ := Option.map_eq_some_iff.mp h
      intro seg hseg
      rcases List.mem_cons.mp hseg with rfl | hseg
      · exact .inr List.mem_cons_self
      · exact (ih hbuf' seg hseg).imp_right (List.mem_cons_of_mem _)

/-! ## The invariant -/

/-- The longest payload of a datagram that fits the buffer of `alloc_cb`. -/
def payloadLimit : ℕ := allocSize.toNat - ikcpOverhead

/-- A segment as such a datagram can carry it. -/
structure IkcpSeg.Carried (seg : IkcpSeg) : Prop where
  len_le : seg.len ≤ payloadLimit
  frg_lt : seg.frg.toNat < 256

/-- What a session can hold on its receiving side. -/
structure RecvBounded (kcp : Ikcpcb) : Prop where
  window : kcp.rcvWnd = 1024
  room : kcp.rcvQueue.length ≤ kcp.rcvWnd.toNat
  carried : ∀ seg ∈ kcp.rcvQueue ++ kcp.rcvBuf, seg.Carried

namespace RecvBounded

variable {kcp kcp' : Ikcpcb}

theorem init (conv : UInt32) (user : Ptr) : RecvBounded (configuredKcp conv user) where
  window := rfl
  room := Nat.zero_le _
  carried _ h := absurd h List.not_mem_nil

theorem of_frame (h : RecvBounded kcp) (hconfig : kcp'.config = kcp.config)
    (hqueue : kcp'.recvSide.queue = kcp.recvSide.queue)
    (hbuf : kcp'.recvSide.buf = kcp.recvSide.buf) : RecvBounded kcp' where
  window := (congrArg IkcpConfig.rcvWnd hconfig).trans h.window
  room := by
    have hwnd : kcp'.rcvWnd = kcp.rcvWnd := congrArg IkcpConfig.rcvWnd hconfig
    have hque : kcp'.rcvQueue = kcp.rcvQueue := hqueue
    rw [hque, hwnd]
    exact h.room
  carried := by
    have hque : kcp'.rcvQueue = kcp.rcvQueue := hqueue
    have hbuffer : kcp'.rcvBuf = kcp.rcvBuf := hbuf
    rw [hque, hbuffer]
    exact h.carried

theorem of_recvSide (h : RecvBounded kcp) (hconfig : kcp'.config = kcp.config)
    (hrecv : kcp'.recvSide = kcp.recvSide) : RecvBounded kcp' :=
  h.of_frame hconfig (congrArg RecvSide.queue hrecv) (congrArg RecvSide.buf hrecv)

theorem moveAvailable (h : RecvBounded kcp) : RecvBounded (moveAvailable kcp) := by
  have hconfig := (moveAvailable_frame kcp).1
  obtain ⟨moved, hbuf, hqueue⟩ := moveAvailableLoop_split kcp.rcvBuf kcp
  have hwnd : (KcpEcho.moveAvailable kcp).rcvWnd = kcp.rcvWnd :=
    congrArg IkcpConfig.rcvWnd hconfig
  refine ⟨hwnd.trans h.window, ?_, ?_⟩
  · rw [hwnd]
    exact length_moveAvailableLoop_le _ h.room
  · intro seg hseg
    rw [KcpEcho.moveAvailable, hqueue, List.append_assoc, ← hbuf] at hseg
    exact h.carried seg hseg

/-! ### What arrives -/

theorem parseData (h : RecvBounded kcp) {newseg : IkcpSeg} (hnew : newseg.Carried) :
    RecvBounded (ikcpParseData kcp newseg) := by
  unfold ikcpParseData
  split
  · exact h
  · apply RecvBounded.moveAvailable
    refine ⟨h.window, h.room, ?_⟩
    intro seg hseg
    dsimp only at hseg
    rcases List.mem_append.mp hseg with hseg | hseg
    · exact h.carried seg (List.mem_append_left _ hseg)
    · split at hseg
      · exact h.carried seg (List.mem_append_right _ hseg)
      · rename_i buf hbuf
        rcases mem_of_insertBackward hbuf seg (List.mem_reverse.mp hseg) with rfl | hold
        · exact hnew
        · exact h.carried seg (List.mem_append_right _ (List.mem_reverse.mp hold))

theorem inputPush (h : RecvBounded kcp) (hdr : IkcpHeader) {data : List UInt8}
    (hlen : data.length ≤ payloadLimit) : RecvBounded (inputPush kcp hdr data) := by
  have hpushed : RecvBounded (ikcpAckPush kcp hdr.sn hdr.ts) := h.of_frame rfl rfl rfl
  unfold KcpEcho.inputPush
  split
  · dsimp only
    split
    · exact hpushed.parseData ⟨hlen, hdr.frg.toNat_lt⟩
    · exact hpushed
  · exact h

theorem inputSeg {st : InputState} (h : RecvBounded st.kcp) (hdr : IkcpHeader) {data : List UInt8}
    (hlen : data.length ≤ payloadLimit) : RecvBounded (inputSeg st hdr data).kcp := by
  have hhead : RecvBounded (inputHead st.kcp hdr) :=
    h.of_recvSide (inputHead_frame _ _).1 (inputHead_frame _ _).2
  unfold KcpEcho.inputSeg
  dsimp only
  split_ifs
  · apply hhead.of_recvSide
    · simp
    · simp
  · exact hhead.inputPush hdr hlen
  · exact hhead.of_recvSide rfl rfl
  · exact hhead

theorem inputLoop (fuel : ℕ) {st : InputState} (h : RecvBounded st.kcp) {data : List UInt8}
    (hlen : data.length ≤ allocSize.toNat) : RecvBounded (inputLoop fuel st data).1.kcp := by
  induction fuel generalizing st data with
  | zero => exact h
  | succ fuel ih =>
    rw [KcpEcho.inputLoop]
    split
    · exact h
    · dsimp only
      have hrest := length_decodeHeader_snd data
      split
      · exact h
      · refine ih (h.inputSeg _ ?_) ?_
        · rw [List.length_take, hrest, payloadLimit]
          omega
        · rw [List.length_drop, hrest]
          omega

theorem input (h : RecvBounded kcp) {data : List UInt8} (hlen : data.length ≤ allocSize.toNat) :
    RecvBounded (ikcpInput kcp data).1 := by
  have hloop := @inputLoop data.length { kcp := kcp } h data hlen
  unfold ikcpInput
  dsimp only
  split_ifs
  · exact h
  · exact hloop
  · obtain ⟨hconfig, -, hrecv⟩ := inputFinish_sides kcp.sndUna
      (KcpEcho.inputLoop data.length { kcp := kcp } data).1
    exact hloop.of_recvSide hconfig hrecv

/-! ### What the program does -/

theorem recvMoved (h : RecvBounded kcp) : RecvBounded (recvMoved kcp) := by
  obtain ⟨removed, hqueue, -⟩ := mergeFragment_split kcp.rcvQueue
  apply RecvBounded.moveAvailable
  refine ⟨h.window, ?_, ?_⟩
  · have hlen := congrArg List.length hqueue
    rw [List.length_append] at hlen
    have hroom := h.room
    dsimp only
    omega
  · intro seg hseg
    apply h.carried
    rw [hqueue, List.append_assoc]
    exact List.mem_append_right _ hseg

theorem recv (h : RecvBounded kcp) : RecvBounded (ikcpRecv kcp allocSize).1 := by
  rcases ikcpRecv_cases kcp (show 0 ≤ allocSize by decide) with
    ⟨r, -, heq, -⟩ | ⟨-, -, -, probe, heq⟩
  · rw [heq]
    exact h
  · rw [heq]
    exact h.recvMoved.of_recvSide rfl rfl

theorem send (h : RecvBounded kcp) (buffer : List UInt8) : RecvBounded (ikcpSend kcp buffer).1 :=
  h.of_recvSide (ikcpSend_frame kcp buffer).1 (ikcpSend_frame kcp buffer).2

theorem update (h : RecvBounded kcp) (current : UInt32) :
    RecvBounded (ikcpUpdate kcp current).1 := by
  obtain ⟨kcp', hconfig, -, hrecv, hupd, heq | heq⟩ := ikcpUpdate_cases kcp current
  · obtain ⟨hconfig', -, hrecv'⟩ := ikcpFlush_sides hupd
    rw [heq]
    apply (h.of_recvSide hconfig hrecv).of_frame hconfig'
    · rw [hrecv']
    · rw [hrecv']
  · rw [heq]
    exact h.of_recvSide hconfig hrecv

theorem echoLoop (fuel : ℕ) (h : RecvBounded kcp) (log : EchoLog) :
    RecvBounded (echoLoop fuel kcp log).1 := by
  induction fuel generalizing kcp log with
  | zero => exact h
  | succ fuel ih =>
    rw [KcpEcho.echoLoop]
    dsimp only
    split
    · exact h.recv
    · split
      · exact h.recv.send _
      · exact ih (h.recv.send _) _

theorem echo (h : RecvBounded kcp) : RecvBounded (echo kcp).1 := h.echoLoop _ {}

/-! ### The sums -/

theorem peekLength_le {queue : List IkcpSeg} (h : ∀ seg ∈ queue, seg.Carried) :
    peekLength queue ≤ queue.length * payloadLimit := by
  induction queue with
  | nil => exact Nat.zero_le _
  | cons seg rest ih =>
    have hseg := (h seg List.mem_cons_self).len_le
    have hrest := ih fun s hs ↦ h s (List.mem_cons_of_mem _ hs)
    rw [peekLength, List.length_cons, Nat.succ_mul]
    split <;> omega

/-- **No overflow.** The `int` in which `ikcp_peeksize` and `ikcp_recv` add up lengths holds every
sum over the receive queue. -/
theorem peekLength_lt (h : RecvBounded kcp) : peekLength kcp.rcvQueue < 2 ^ 31 := by
  have hcarried : ∀ seg ∈ kcp.rcvQueue, seg.Carried :=
    fun seg hseg ↦ h.carried seg (List.mem_append_left _ hseg)
  have hroom := h.room
  rw [h.window] at hroom
  calc peekLength kcp.rcvQueue ≤ kcp.rcvQueue.length * payloadLimit := peekLength_le hcarried
    _ ≤ 1024 * payloadLimit := Nat.mul_le_mul_right _ hroom
    _ < 2 ^ 31 := by decide

end RecvBounded
end KcpEcho
