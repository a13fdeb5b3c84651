import KcpEcho.Base.SerialWindow
import KcpEcho.Session.Bounds
import KcpEcho.Session.Receiver

/-!
# The buffers of a session under any datagrams

The send and the receive buffer of a control block are kept in the order of their sequence numbers,
and every scan over them relies on it: each stops at the first number beyond the one it looks for.
The order is compared by wrapping differences, so it means something only while all numbers in a
buffer lie within half the range of each other.

No datagram can break this, hostile ones included. The send buffer holds increasing numbers from
`snd_una`, its oldest one, up to `snd_nxt`, no more than a window of them (`SendSide.Windowed`); the
receive buffer holds increasing numbers less than a window ahead of `rcv_nxt`, and the receive queue
the consecutive numbers right behind it (`RecvSide.Windowed`). So no scan stops too early
(`scans_exact`).
-/

namespace KcpEcho

open Serial

/-! ## The invariants -/

/-- The send buffer is in order, from `snd_una` up to `snd_nxt`. -/
structure SendSide.InOrder (side : SendSide) : Prop where
  window : Window (fun b : SegBody ↦ b.sn.toBitVec) side.una.toBitVec (ahead side.nxt side.una)
    side.buf
  size : ahead side.nxt side.una ≤ 1024

/-- The oldest number in the send buffer, or the next one if there is none. -/
def SendSide.first (side : SendSide) : UInt32 := (side.buf.head?.map SegBody.sn).getD side.nxt

/-- And `snd_una` is the oldest number in it. -/
structure SendSide.Windowed (side : SendSide) : Prop extends side.InOrder where
  oldest : side.una = side.first

/-- The receive buffer is in order, less than a window ahead of `rcv_nxt`; the queue holds the
numbers right behind it. -/
structure RecvSide.InOrder (side : RecvSide) : Prop where
  window : Window (fun seg : IkcpSeg ↦ seg.sn.toBitVec) side.nxt.toBitVec 1024 side.buf
  queue : ∀ i seg, side.queue[i]? = some seg →
    seg.sn + UInt32.ofNat (side.queue.length - i) = side.nxt
  room : side.queue.length ≤ 1024

/-- And the next number is not in the buffer unless the queue is full. -/
structure RecvSide.Windowed (side : RecvSide) : Prop extends side.InOrder where
  settled : ∀ seg ∈ side.buf.head?, seg.sn = side.nxt → side.queue.length = 1024

/-! ## Sending -/

section Send

variable {kcp : Ikcpcb}

theorem ikcpShrinkBuf_sendSide (kcp : Ikcpcb) :
    (ikcpShrinkBuf kcp).sendSide = { kcp.sendSide with una := kcp.sendSide.first } := by
  unfold ikcpShrinkBuf
  split
  · rename_i seg rest hbuf
    have hfirst : kcp.sendSide.first = seg.sn := by
      rw [SendSide.first, Ikcpcb.sendSide, hbuf]
      rfl
    rw [hfirst]
    rfl
  · rename_i hbuf
    have hfirst : kcp.sendSide.first = kcp.sndNxt := by
      rw [SendSide.first, Ikcpcb.sendSide, hbuf]
      rfl
    rw [hfirst]
    rfl

/-- **`ikcp_shrink_buf`** puts `snd_una` back to the oldest number, whatever has been taken out of
the buffer. -/
theorem SendSide.InOrder.shrink {side : SendSide} (h : side.InOrder) :
    ({ side with una := side.first } : SendSide).Windowed := by
  have hsize := h.size
  have hfirst : ahead side.first side.una ≤ ahead side.nxt side.una ∧
      ∀ b ∈ side.buf, ahead side.first side.una ≤ ahead b.sn side.una := by
    rw [SendSide.first]
    cases hbuf : side.buf with
    | nil => exact ⟨le_rfl, fun b hb ↦ absurd hb List.not_mem_nil⟩
    | cons b rest =>
      have hwindow := h.window
      rw [hbuf] at hwindow
      refine ⟨(hwindow.within b List.mem_cons_self).le, fun c hc ↦ ?_⟩
      rcases List.mem_cons.mp hc with rfl | hc
      · exact le_rfl
      · exact (hwindow.head_lt c hc).le
  have hahead : ahead side.nxt side.first = ahead side.nxt side.una - ahead side.first side.una :=
    elapsed_rebase hfirst.1
  refine ⟨⟨?_, ?_⟩, rfl⟩
  · dsimp only
    rw [hahead]
    exact h.window.rebase hfirst.2
  · dsimp only
    omega

theorem SendSide.InOrder.sublist {side side' : SendSide} (h : side.InOrder)
    (hbuf : side'.buf.Sublist side.buf) (huna : side'.una = side.una) (hnxt : side'.nxt = side.nxt) :
    side'.InOrder := by
  refine ⟨?_, ?_⟩
  · rw [huna, hnxt]
    exact h.window.sublist hbuf
  · rw [huna, hnxt]
    exact h.size

theorem SendSide.InOrder.parseAck (h : kcp.sendSide.InOrder) (sn : UInt32) :
    (ikcpParseAck kcp sn).sendSide.InOrder := by
  refine h.sublist (SendShrinks.parseAck kcp sn).buf ?_ ?_ <;>
    · unfold ikcpParseAck
      split <;> rfl

theorem SendSide.InOrder.inputHead (h : kcp.sendSide.InOrder) (hd : IkcpHeader) :
    (inputHead kcp hd).sendSide.Windowed := by
  have hrest : (ikcpParseUna { kcp with rmtWnd := hd.wnd.toUInt32 } hd.una).sendSide.InOrder :=
    h.sublist (SendShrinks.parseUna { kcp with rmtWnd := hd.wnd.toUInt32 } hd.una).buf rfl rfl
  rw [KcpEcho.inputHead, ikcpShrinkBuf_sendSide]
  exact hrest.shrink

/-- **The move from `snd_queue` to `snd_buf`** gives out the next numbers, up to the end of the
window. -/
theorem SendSide.Windowed.moveToSndBuf {cwnd : UInt32} (hcwnd : cwnd.toNat ≤ 1024) (wnd : UInt32)
    (segs : List IkcpSeg) {kcp : Ikcpcb} (h : kcp.sendSide.Windowed) :
    (moveToSndBuf cwnd wnd segs kcp).sendSide.Windowed := by
  induction segs generalizing kcp with
  | nil => exact ⟨⟨h.window, h.size⟩, h.oldest⟩
  | cons seg rest ih =>
    rw [KcpEcho.moveToSndBuf]
    split
    · rename_i hroom
      have hstop : ahead (kcp.sndUna + cwnd) kcp.sndUna = cwnd.toNat := ahead_add_self _ _
      have hsize : ahead kcp.sndNxt kcp.sndUna ≤ 1024 := h.size
      have hlt : ahead kcp.sndNxt kcp.sndUna < cwnd.toNat := by
        rw [itimediff_neg_iff kcp.sndUna (by omega) (by omega)] at hroom
        omega
      have hnext : ahead (kcp.sndNxt + 1) kcp.sndUna = ahead kcp.sndNxt kcp.sndUna + 1 := by
        have hadd := ahead_add kcp.sndNxt kcp.sndUna 1
        rw [Nat.mod_eq_of_lt (by omega)] at hadd
        exact hadd
      refine ih ⟨⟨?_, ?_⟩, ?_⟩
      · simp only [Ikcpcb.sendSide, List.map_append, List.map_singleton]
        rw [hnext]
        exact h.window.concat rfl
      · change ahead (kcp.sndNxt + 1) kcp.sndUna ≤ 1024
        omega
      · have holdest := h.oldest
        simp only [SendSide.first, Ikcpcb.sendSide, List.map_append, List.map_singleton,
          List.head?_append] at holdest ⊢
        -- into an empty buffer goes `snd_nxt`, which is `snd_una`
        cases hhead : (kcp.sndBuf.map IkcpSeg.body).head? with
        | none =>
          rw [hhead] at holdest
          exact holdest
        | some b =>
          rw [hhead] at holdest
          exact holdest
    · exact ⟨⟨h.window, h.size⟩, h.oldest⟩

theorem SendSide.Windowed.flush {conv : UInt32} {user : Ptr} (hf : Framed conv user kcp)
    (h : kcp.sendSide.Windowed) : (ikcpFlush kcp).1.sendSide.Windowed := by
  by_cases hupd : kcp.updated = 0
  · rw [ikcpFlush_of_not_updated hupd]
    exact h
  · have hprobe := flushProbe_sides { kcp with acklist := [] }
    have hbase : Framed conv user { flushProbe { kcp with acklist := [] } with probe := 0 } :=
      hf.of_frame hprobe.1 hprobe.2.1
    rw [(ikcpFlush_sides hupd).2.1, flushMoved]
    have hwnd : (flushProbe { kcp with acklist := [] }).sndWnd = 1024 :=
      congrArg IkcpConfig.sndWnd hbase.config
    refine moveToSndBuf ((flushCwnd_le _).trans ?_) _ _ ?_
    · dsimp only
      rw [hwnd]
      decide
    change (flushProbe { kcp with acklist := [] }).sendSide.Windowed
    rw [hprobe.2.1]
    exact h

theorem SendSide.Windowed.update {conv : UInt32} {user : Ptr} (hf : Framed conv user kcp)
    (h : kcp.sendSide.Windowed) (current : UInt32) :
    (ikcpUpdate kcp current).1.sendSide.Windowed := by
  obtain ⟨kcp', hconfig, hsend, -, -, heq | heq⟩ := ikcpUpdate_cases kcp current
  · rw [heq]
    exact flush (hf.of_frame hconfig hsend) (hsend ▸ h)
  · rw [heq]
    exact hsend ▸ h

/-- `ikcp_send` only fills the queue. -/
theorem ikcpSend_window (kcp : Ikcpcb) (buffer : List UInt8) :
    (ikcpSend kcp buffer).1.sndUna = kcp.sndUna ∧ (ikcpSend kcp buffer).1.sndNxt = kcp.sndNxt ∧
      (ikcpSend kcp buffer).1.sndBuf = kcp.sndBuf := by
  have hextend : (extendPrevious kcp buffer).1.sndUna = kcp.sndUna ∧
      (extendPrevious kcp buffer).1.sndNxt = kcp.sndNxt ∧
      (extendPrevious kcp buffer).1.sndBuf = kcp.sndBuf := by
    unfold extendPrevious
    split
    · exact ⟨rfl, rfl, rfl⟩
    · split <;> exact ⟨rfl, rfl, rfl⟩
  unfold ikcpSend
  dsimp only
  split_ifs <;> first | exact hextend | exact ⟨rfl, rfl, rfl⟩

theorem SendSide.Windowed.send (h : kcp.sendSide.Windowed) (buffer : List UInt8) :
    (ikcpSend kcp buffer).1.sendSide.Windowed := by
  obtain ⟨huna, hnxt, hbuf⟩ := ikcpSend_window kcp buffer
  refine ⟨h.toInOrder.sublist ?_ huna hnxt, ?_⟩
  · rw [Ikcpcb.sendSide, hbuf]
    exact List.Sublist.refl _
  · have holdest := h.oldest
    rw [SendSide.first, Ikcpcb.sendSide] at holdest ⊢
    dsimp only at holdest ⊢
    rw [huna, hnxt, hbuf]
    exact holdest

end Send

/-! ## Receiving -/

section Receive

variable {kcp : Ikcpcb}

/-- **The move from `rcv_buf` to `rcv_queue`** stops at the first gap, or when the queue is full. -/
theorem RecvSide.InOrder.moveAvailableLoop {segs : List IkcpSeg} (hwnd : kcp.rcvWnd = 1024)
    (h : ({ kcp.recvSide with buf := segs } : RecvSide).InOrder) :
    (moveAvailableLoop segs kcp).recvSide.Windowed := by
  induction segs generalizing kcp with
  | nil => exact ⟨⟨h.window, h.queue, h.room⟩, fun seg hseg ↦ absurd hseg (by simp [Ikcpcb.recvSide,
      KcpEcho.moveAvailableLoop])⟩
  | cons seg rest ih =>
    rw [KcpEcho.moveAvailableLoop]
    have hroom : kcp.rcvQueue.length ≤ 1024 := h.room
    by_cases hmove : seg.sn = kcp.rcvNxt ∧ kcp.nrcvQue < kcp.rcvWnd.toNat
    · obtain ⟨hnext, hlt⟩ := hmove
      rw [if_pos ⟨hnext, hlt⟩]
      rw [Ikcpcb.nrcvQue, hwnd] at hlt
      have hlt : kcp.rcvQueue.length < 1024 := hlt
      have hstep : ahead (kcp.rcvNxt + 1) kcp.rcvNxt = 1 := ahead_add_self _ _
      refine @ih { kcp with rcvQueue := kcp.rcvQueue ++ [seg], rcvNxt := kcp.rcvNxt + 1 } hwnd
        ⟨?_, ?_, ?_⟩
      · -- all the others are beyond the one that leaves
        refine (h.window.tail.rebase fun x hx ↦ ?_).mono (Nat.sub_le _ _)
        have hhead := h.window.head_lt x hx
        change ahead (kcp.rcvNxt + 1) kcp.rcvNxt ≤ _
        omega
      · intro i s hs
        dsimp only [Ikcpcb.recvSide] at hs ⊢
        rw [List.length_append, List.length_singleton]
        rcases Nat.lt_or_ge i kcp.rcvQueue.length with hi | hi
        · rw [List.getElem?_append_left hi] at hs
          have hold : s.sn + UInt32.ofNat (kcp.rcvQueue.length - i) = kcp.rcvNxt := h.queue i s hs
          rw [Nat.succ_sub hi.le, Nat.succ_eq_add_one, UInt32.ofNat_add, ← hold, UInt32.add_assoc]
          rfl
        · rw [List.getElem?_append_right hi] at hs
          obtain ⟨hzero, rfl⟩ := List.getElem?_eq_some_iff.mp hs
          rw [List.length_singleton] at hzero
          have hi : kcp.rcvQueue.length + 1 - i = 1 := by omega
          simp only [List.getElem_singleton]
          rw [hi, hnext]
          rfl
      · simp only [Ikcpcb.recvSide, List.length_append, List.length_singleton]
        omega
    · rw [if_neg hmove]
      refine ⟨⟨h.window, h.queue, h.room⟩, ?_⟩
      intro s hs hsn
      obtain rfl := Option.some.inj hs
      by_contra hne
      refine hmove ⟨hsn, ?_⟩
      rw [Ikcpcb.nrcvQue, hwnd]
      change kcp.rcvQueue.length < 1024
      exact lt_of_le_of_ne hroom hne

/-- Where a number is in a window from `base`. -/
def Placed (base sn : UInt32) (l r : List IkcpSeg) : Prop :=
  (∀ seg ∈ l, ahead seg.sn base < ahead sn base) ∧ ∀ seg ∈ r, ahead sn base < ahead seg.sn base

/-- **The backward scan of `ikcp_parse_data`** finds the number, or its place. -/
theorem insertBackward_of_window {base : UInt32} {newseg : IkcpSeg} {segs : List IkcpSeg}
    (h : Window (fun seg : IkcpSeg ↦ seg.sn.toBitVec) base.toBitVec 1024 segs)
    (hnew : ahead newseg.sn base < 1024) :
    (insertBackward newseg segs.reverse = none ∧ ∃ seg ∈ segs, seg.sn = newseg.sn) ∨
      ∃ l r, segs = l ++ r ∧ Placed base newseg.sn l r ∧
        insertBackward newseg segs.reverse = some (l ++ newseg :: r).reverse := by
  induction segs using List.reverseRecOn with
  | nil =>
    exact .inr ⟨[], [], rfl, ⟨fun _ h ↦ absurd h List.not_mem_nil,
      fun _ h ↦ absurd h List.not_mem_nil⟩, rfl⟩
  | append_singleton rest seg ih =>
    have hseg : ahead seg.sn base < 1024 := h.within seg (by simp)
    have hbefore : ∀ s ∈ rest, ahead s.sn base < ahead seg.sn base := fun s hs ↦
      (List.pairwise_append.mp h.sorted).2.2 s hs seg List.mem_cons_self
    rw [List.reverse_concat, insertBackward]
    by_cases hsame : seg.sn = newseg.sn
    · rw [if_pos hsame]
      exact .inl ⟨rfl, seg, by simp, hsame⟩
    rw [if_neg hsame]
    have hneg := @itimediff_neg_iff newseg.sn seg.sn base (by omega) (by omega)
    have hne : ahead newseg.sn base ≠ ahead seg.sn base := fun heq ↦
      hsame ((ahead_inj base).mp heq).symm
    have hdiff := @itimediff_of_ahead newseg.sn seg.sn base ⟨by omega, by omega⟩
    by_cases hgt : itimediff newseg.sn seg.sn > 0
    · -- the place is right behind this one
      rw [if_pos hgt]
      refine .inr ⟨rest ++ [seg], [], by simp, ⟨?_, fun _ h ↦ absurd h List.not_mem_nil⟩, by simp⟩
      intro s hs
      rcases List.mem_append.mp hs with hs | hs
      · have := hbefore s hs
        omega
      · obtain rfl := List.mem_singleton.mp hs
        omega
    · rw [if_neg hgt]
      rcases ih (h.sublist (List.sublist_append_left _ _)) with
        ⟨hnone, s, hs, hsn⟩ | ⟨l, r, hsplit, ⟨hl, hr⟩, hsome⟩
      · exact .inl ⟨by rw [hnone]; rfl, s, List.mem_append_left _ hs, hsn⟩
      · refine .inr ⟨l, r ++ [seg], by rw [hsplit, List.append_assoc], ⟨hl, ?_⟩, ?_⟩
        · intro s hs
          rcases List.mem_append.mp hs with hs | hs
          · exact hr s hs
          · obtain rfl := List.mem_singleton.mp hs
            omega
        · rw [hsome]
          simp

/-- **`ikcp_parse_data`** keeps the receive side in order. -/
theorem RecvSide.InOrder.parseData (h : kcp.recvSide.InOrder) (hwnd : kcp.rcvWnd = 1024)
    {newseg : IkcpSeg} (hnew : ahead newseg.sn kcp.rcvNxt < 1024) (buf : List IkcpSeg)
    (hbuf : buf = match insertBackward newseg kcp.rcvBuf.reverse with
      | none => kcp.rcvBuf
      | some buf => buf.reverse) :
    (moveAvailable { kcp with rcvBuf := buf }).recvSide.Windowed := by
  refine @RecvSide.InOrder.moveAvailableLoop { kcp with rcvBuf := buf } buf hwnd
    ⟨?_, h.queue, h.room⟩
  change Window _ kcp.rcvNxt.toBitVec 1024 buf
  rcases insertBackward_of_window h.window hnew with ⟨hnone, -⟩ | ⟨l, r, hsplit, ⟨hl, hr⟩, hsome⟩
  · rw [hbuf, show kcp.rcvBuf.reverse = kcp.recvSide.buf.reverse from rfl, hnone]
    exact h.window
  · have hwindow := h.window
    rw [hsplit] at hwindow
    rw [hbuf, show kcp.rcvBuf.reverse = kcp.recvSide.buf.reverse from rfl, hsome]
    dsimp only
    rw [List.reverse_reverse]
    exact hwindow.insert hnew hl hr

/-- The window test of `ikcp_parse_data`. -/
theorem not_outside_iff (hwnd : kcp.rcvWnd = 1024) (sn : UInt32) :
    ¬(itimediff sn (kcp.rcvNxt + kcp.rcvWnd) ≥ 0 ∨ itimediff sn kcp.rcvNxt < 0) ↔
      ahead sn kcp.rcvNxt < 1024 := by
  have hstop : ahead (kcp.rcvNxt + kcp.rcvWnd) kcp.rcvNxt = 1024 := by
    rw [ahead_add_self, hwnd]
    rfl
  have hiff := @ahead_lt_iff sn kcp.rcvNxt (kcp.rcvNxt + kcp.rcvWnd) (by omega)
  rw [hstop] at hiff
  rw [hiff]
  omega

theorem RecvSide.Windowed.inputPush (h : kcp.recvSide.Windowed) (hwnd : kcp.rcvWnd = 1024)
    (hd : IkcpHeader) (data : List UInt8) : (inputPush kcp hd data).recvSide.Windowed := by
  have hpushed : (ikcpAckPush kcp hd.sn hd.ts).recvSide.Windowed :=
    ⟨⟨h.window, h.queue, h.room⟩, h.settled⟩
  rw [KcpEcho.inputPush]
  split
  · dsimp only
    split
    · rw [ikcpParseData]
      split
      · exact hpushed
      · rename_i hinside
        exact hpushed.toInOrder.parseData hwnd
          ((@not_outside_iff (ikcpAckPush kcp hd.sn hd.ts) hwnd hd.sn).mp hinside) _ rfl
    · exact hpushed
  · exact h

/-- **`ikcp_recv`** moves the window up. -/
theorem RecvSide.Windowed.recv (h : kcp.recvSide.Windowed) (hwnd : kcp.rcvWnd = 1024) (len : ℤ) :
    (ikcpRecv kcp len).1.recvSide.Windowed := by
  obtain ⟨removed, hqueue, -⟩ := mergeFragment_split kcp.rcvQueue
  have htaken : ({ kcp with rcvQueue := (mergeFragment kcp.rcvQueue).2 } :
      Ikcpcb).recvSide.InOrder := by
    refine ⟨h.window, ?_, ?_⟩
    · intro i seg hseg
      have hlen := congrArg List.length hqueue
      rw [List.length_append] at hlen
      have hold := h.queue (removed.length + i) seg (by
        change kcp.rcvQueue[removed.length + i]? = some seg
        rw [hqueue, List.getElem?_append_right (Nat.le_add_right _ _), Nat.add_sub_cancel_left]
        exact hseg)
      change seg.sn + UInt32.ofNat ((mergeFragment kcp.rcvQueue).2.length - i) = kcp.rcvNxt
      rwa [show kcp.recvSide.queue.length - (removed.length + i)
        = (mergeFragment kcp.rcvQueue).2.length - i by
          change kcp.rcvQueue.length - _ = _
          omega] at hold
    · have hlen := congrArg List.length hqueue
      have hroom : kcp.rcvQueue.length ≤ 1024 := h.room
      rw [List.length_append] at hlen
      change (mergeFragment kcp.rcvQueue).2.length ≤ 1024
      omega
  have hpeeked : (moveAvailable kcp).recvSide.Windowed := h.toInOrder.moveAvailableLoop hwnd
  have hmoved : (recvMoved kcp).recvSide.Windowed := htaken.moveAvailableLoop hwnd
  rw [ikcpRecv]
  dsimp only
  split_ifs <;> first | exact h | exact hpeeked | exact hmoved

end Receive

/-! ## Sessions -/

/-- Both buffers of a control block are in order. -/
structure Windowed (kcp : Ikcpcb) : Prop where
  send : kcp.sendSide.Windowed
  recv : kcp.recvSide.Windowed

namespace Windowed

variable {conv : UInt32} {user : Ptr} {kcp kcp' : Ikcpcb}

theorem init (conv : UInt32) (user : Ptr) : Windowed (configuredKcp conv user) where
  send := ⟨⟨.nil, (show ahead 0 0 ≤ 1024 by decide)⟩, rfl⟩
  recv := ⟨⟨.nil, fun i seg h ↦ absurd h (by simp [Ikcpcb.recvSide, configuredKcp, ikcpCreate,
    ikcpNodelay, ikcpWndsize]), Nat.zero_le _⟩, fun seg h ↦ absurd h (by simp [Ikcpcb.recvSide,
    configuredKcp, ikcpCreate, ikcpNodelay, ikcpWndsize])⟩

theorem of_sides (h : Windowed kcp) (hsend : kcp'.sendSide = kcp.sendSide)
    (hrecv : kcp'.recvSide = kcp.recvSide) : Windowed kcp' := ⟨hsend ▸ h.send, hrecv ▸ h.recv⟩

/-- One segment of a datagram, whatever it says. -/
theorem inputSeg {st : InputState} (h : Windowed st.kcp) (hwnd : st.kcp.rcvWnd = 1024)
    (hd : IkcpHeader) (data : List UInt8) : Windowed (inputSeg st hd data).kcp := by
  obtain ⟨hconfig, hrecv⟩ := inputHead_frame st.kcp hd
  have hhead : Windowed (inputHead st.kcp hd) :=
    ⟨h.send.toInOrder.inputHead hd, hrecv ▸ h.recv⟩
  have hwnd' : (inputHead st.kcp hd).rcvWnd = 1024 :=
    (congrArg IkcpConfig.rcvWnd hconfig).trans hwnd
  rw [KcpEcho.inputSeg]
  dsimp only
  split_ifs
  · rw [inputAck_kcp]
    obtain ⟨-, hsend, hrecv'⟩ := inputRtt_sides (inputHead st.kcp hd) hd.ts
    have hrtt := hhead.of_sides hsend hrecv'
    refine ⟨?_, ?_⟩
    · rw [ikcpShrinkBuf_sendSide]
      exact (hrtt.send.toInOrder.parseAck hd.sn).shrink
    · rw [(ikcpShrinkBuf_frame _).2, (ikcpParseAck_frame _ _).2]
      exact hrtt.recv
  · refine ⟨?_, hhead.recv.inputPush hwnd' hd data⟩
    rw [(inputPush_frame _ hd data).2]
    exact hhead.send
  · exact hhead.of_sides rfl rfl
  · exact hhead

theorem inputLoop (fuel : ℕ) {st : InputState} (h : Windowed st.kcp) (hwnd : st.kcp.rcvWnd = 1024)
    (data : List UInt8) : Windowed (inputLoop fuel st data).1.kcp := by
  induction fuel generalizing st data with
  | zero => exact h
  | succ fuel ih =>
    rw [KcpEcho.inputLoop]
    split
    · exact h
    · dsimp only
      split
      · exact h
      · exact ih (h.inputSeg hwnd _ _)
          ((congrArg IkcpConfig.rcvWnd (inputSeg_config _ _ _)).trans hwnd) _

theorem input (h : Windowed kcp) (hwnd : kcp.rcvWnd = 1024) (data : List UInt8) :
    Windowed (ikcpInput kcp data).1 := by
  have hloop := @inputLoop data.length { kcp := kcp } h hwnd data
  unfold ikcpInput
  dsimp only
  split_ifs
  · exact h
  · exact hloop
  · obtain ⟨-, hsend, hrecv⟩ := inputFinish_sides kcp.sndUna
      (KcpEcho.inputLoop data.length { kcp := kcp } data).1
    exact hloop.of_sides hsend hrecv

theorem after (hf : Framed conv user kcp) (h : Windowed kcp) (usage : Usage) :
    Windowed (kcp.after usage) := by
  have hwnd : kcp.rcvWnd = 1024 := congrArg IkcpConfig.rcvWnd hf.config
  cases usage with
  | send buffer => exact ⟨h.send.send buffer, (ikcpSend_frame kcp buffer).2 ▸ h.recv⟩
  | input data => exact h.input hwnd data
  | recv len => exact ⟨(ikcpRecv_frame kcp len).2 ▸ h.send, h.recv.recv hwnd len⟩
  | update current =>
    refine ⟨h.send.update hf current, ?_⟩
    obtain ⟨kcp', -, -, hrecv, hupd, heq | heq⟩ := ikcpUpdate_cases kcp current
    · rw [Ikcpcb.after, heq, (ikcpFlush_sides hupd).2.2, hrecv]
      exact ⟨⟨h.recv.window, h.recv.queue, h.recv.room⟩, h.recv.settled⟩
    · rw [Ikcpcb.after, heq, hrecv]
      exact h.recv

theorem inductive_session (conv : UInt32) (user : Ptr) :
    (session conv user).Inductive fun kcp ↦ Framed conv user kcp ∧ Windowed kcp :=
  (Framed.inductive_session conv user).and (fun _ hkcp ↦ hkcp ▸ init conv user)
    fun _ usage _ hf h hkcp' ↦ hkcp' ▸ h.after hf usage

/-- **No datagram breaks the order of the buffers.** -/
theorem of_reachable (h : (session conv user).Reachable kcp) : Windowed kcp :=
  ((inductive_session conv user).reachable h).2

end Windowed

/-! ## The scans -/

section Scans

variable {base sn : UInt32} {segs : List IkcpSeg}

theorem removeAcked_eq_filter
    (h : Window (fun seg : IkcpSeg ↦ seg.sn.toBitVec) base.toBitVec 1024 segs)
    (hsn : ahead sn base < 1024) : removeAcked sn segs = segs.filter fun seg ↦ seg.sn ≠ sn := by
  induction segs with
  | nil => rfl
  | cons seg rest ih =>
    have hseg : ahead seg.sn base < 1024 := h.within seg List.mem_cons_self
    have hkeep : ahead sn base ≤ ahead seg.sn base → rest.filter (fun s ↦ s.sn ≠ sn) = rest := by
      intro hle
      refine List.filter_eq_self.mpr fun s hs ↦ decide_eq_true fun heq ↦ ?_
      have hlt : ahead seg.sn base < ahead s.sn base := h.head_lt s hs
      rw [heq] at hlt
      omega
    rw [removeAcked]
    by_cases hsame : sn = seg.sn
    · rw [if_pos hsame, List.filter_cons_of_neg (by simp [hsame]), hkeep (by rw [hsame])]
    have hneg := @itimediff_neg_iff sn seg.sn base (by omega) (by omega)
    have hne : seg.sn ≠ sn := Ne.symm hsame
    rw [if_neg hsame, List.filter_cons_of_pos (by simpa using hne)]
    split_ifs with hbefore
    · rw [hkeep (hneg.mp hbefore).le]
    · rw [ih h.tail]

theorem bumpFastack_eq_map
    (h : Window (fun seg : IkcpSeg ↦ seg.sn.toBitVec) base.toBitVec 1024 segs)
    (hsn : ahead sn base < 1024) :
    bumpFastack sn segs = segs.map fun seg ↦
      if ahead seg.sn base < ahead sn base then { seg with fastack := seg.fastack + 1 } else seg := by
  induction segs with
  | nil => rfl
  | cons seg rest ih =>
    have hseg : ahead seg.sn base < 1024 := h.within seg List.mem_cons_self
    have hneg := @itimediff_neg_iff sn seg.sn base (by omega) (by omega)
    rw [bumpFastack, List.map_cons]
    by_cases hbefore : ahead sn base < ahead seg.sn base
    · -- the scan stops here, and none of the rest is older
      rw [if_pos (hneg.mpr hbefore), if_neg (by omega)]
      have hrest : ∀ s ∈ rest, (if ahead s.sn base < ahead sn base then
          { s with fastack := s.fastack + 1 } else s) = s := by
        intro s hs
        have hlt : ahead seg.sn base < ahead s.sn base := h.head_lt s hs
        exact if_neg (by omega)
      rw [List.map_congr_left hrest, List.map_id'' fun _ ↦ rfl]
    · rw [if_neg (hneg.not.mpr hbefore), ih h.tail]
      by_cases hsame : sn = seg.sn
      · rw [if_neg (not_not.mpr hsame), if_neg (by rw [hsame]; omega)]
      · have hne : ahead sn base ≠ ahead seg.sn base := fun heq ↦ hsame ((ahead_inj base).mp heq)
        rw [if_pos hsame, if_pos (by omega)]

theorem dropWhile_una_eq_filter {una : UInt32}
    (h : Window (fun seg : IkcpSeg ↦ seg.sn.toBitVec) base.toBitVec 1024 segs)
    (huna : ahead una base < 2 ^ 31) :
    (segs.dropWhile fun seg ↦ itimediff una seg.sn > 0) =
      segs.filter fun seg ↦ ahead una base ≤ ahead seg.sn base := by
  induction segs with
  | nil => rfl
  | cons seg rest ih =>
    have hseg : ahead seg.sn base < 1024 := h.within seg List.mem_cons_self
    have hdiff := @itimediff_of_ahead una seg.sn base ⟨by omega, by omega⟩
    rw [List.dropWhile_cons]
    by_cases hold : ahead seg.sn base < ahead una base
    · rw [if_pos (decide_eq_true (by omega)), ih h.tail,
        List.filter_cons_of_neg (by simpa using hold)]
    · rw [if_neg (by simp; omega)]
      refine (List.filter_eq_self.mpr fun s hs ↦ decide_eq_true ?_).symm
      rcases List.mem_cons.mp hs with rfl | hs
      · omega
      · have hlt : ahead seg.sn base < ahead s.sn base := h.head_lt s hs
        omega

end Scans

/-- A number behind `snd_una` tells `ikcp_parse_una` nothing: it meets the oldest segment first. -/
theorem ikcpParseUna_of_stale {kcp : Ikcpcb} (h : kcp.sendSide.Windowed) {una : UInt32}
    (hstale : itimediff una kcp.sndUna < 0) : ikcpParseUna kcp una = kcp := by
  have hfirst : ∀ seg ∈ kcp.sndBuf.head?, seg.sn = kcp.sndUna := by
    intro seg hseg
    have holdest : kcp.sndUna = kcp.sendSide.first := h.oldest
    rw [holdest, SendSide.first, Ikcpcb.sendSide, List.head?_map, hseg]
    rfl
  have hkept : kcp.sndBuf.dropWhile (fun seg ↦ itimediff una seg.sn > 0) = kcp.sndBuf := by
    cases hbuf : kcp.sndBuf with
    | nil => rfl
    | cons seg rest =>
      have hsn := hfirst seg (by rw [hbuf]; rfl)
      rw [List.dropWhile_cons, if_neg]
      rw [hsn, decide_eq_true_eq]
      omega
  rw [ikcpParseUna, hkept]

/-- **No scan stops too early.** In every state a session can be brought to, by any datagrams, and
for every number, the four scans do what a scan over the whole buffer would: `ikcp_parse_ack`
removes the acknowledged number, `ikcp_parse_fastack` counts every segment older than one that is
outstanding, `ikcp_parse_una` drops all the older ones, and `ikcp_parse_data` keeps a number once,
at its place. Numbers that are not outstanding, stale, or outside of the window change nothing. -/
theorem scans_exact {conv : UInt32} {user : Ptr} {kcp : Ikcpcb}
    (h : (session conv user).Reachable kcp) (sn : UInt32) :
    (ikcpParseAck kcp sn).sndBuf = kcp.sndBuf.filter (fun seg ↦ seg.sn ≠ sn) ∧
    (∀ ts,
      if ahead sn kcp.sndUna < ahead kcp.sndNxt kcp.sndUna then
        (ikcpParseFastack kcp sn ts).sndBuf = kcp.sndBuf.map fun seg ↦
          if ahead seg.sn kcp.sndUna < ahead sn kcp.sndUna then
            { seg with fastack := seg.fastack + 1 } else seg
      else ikcpParseFastack kcp sn ts = kcp) ∧
    (if 0 ≤ itimediff sn kcp.sndUna then
        (ikcpParseUna kcp sn).sndBuf =
          kcp.sndBuf.filter fun seg ↦ ahead sn kcp.sndUna ≤ ahead seg.sn kcp.sndUna
      else ikcpParseUna kcp sn = kcp) ∧
    ∀ newseg : IkcpSeg, newseg.sn = sn →
      if ahead sn kcp.rcvNxt < 1024 then
        ((∃ seg ∈ kcp.rcvBuf, seg.sn = sn) ∧ ikcpParseData kcp newseg = moveAvailable kcp) ∨
        ∃ l r, kcp.rcvBuf = l ++ r ∧ Placed kcp.rcvNxt sn l r ∧
          ikcpParseData kcp newseg = moveAvailable { kcp with rcvBuf := l ++ newseg :: r }
      else ikcpParseData kcp newseg = kcp := by
  have hw := Windowed.of_reachable h
  have hf := (Framed.inductive_session conv user).reachable h
  have hwnd : kcp.rcvWnd = 1024 := congrArg IkcpConfig.rcvWnd hf.config
  have hsize : ahead kcp.sndNxt kcp.sndUna ≤ 1024 := hw.send.size
  have hordered : Window (fun seg : IkcpSeg ↦ seg.sn.toBitVec) kcp.sndUna.toBitVec
      (ahead kcp.sndNxt kcp.sndUna) kcp.sndBuf := hw.send.window.of_map
  have hwindow := hordered.mono hsize
  have hinside := @ahead_lt_iff sn kcp.sndUna kcp.sndNxt (by omega)
  refine ⟨?_, fun ts ↦ ?_, ?_, ?_⟩
  · rw [ikcpParseAck]
    split_ifs with hout
    · -- a number that is not outstanding is not in the buffer
      refine (List.filter_eq_self.mpr fun seg hseg ↦ decide_eq_true ?_).symm
      intro heq
      have hlt : ahead seg.sn kcp.sndUna < ahead kcp.sndNxt kcp.sndUna := hordered.within seg hseg
      rw [heq, hinside] at hlt
      omega
    · exact removeAcked_eq_filter hwindow ((hinside.mpr (by omega)).trans_le hsize)
  · have hout : itimediff sn kcp.sndUna < 0 ∨ itimediff sn kcp.sndNxt ≥ 0 ↔
        ¬ahead sn kcp.sndUna < ahead kcp.sndNxt kcp.sndUna := by
      rw [hinside]
      omega
    split_ifs with hlt
    · rw [ikcpParseFastack, if_neg (hout.not.mpr (not_not.mpr hlt))]
      exact bumpFastack_eq_map hwindow (hlt.trans_le hsize)
    · rw [ikcpParseFastack, if_pos (hout.mpr hlt)]
  · split_ifs with hnonneg
    · refine dropWhile_una_eq_filter hwindow ?_
      have hdiff := Serial.diff_eq_elapsed sn.toBitVec kcp.sndUna.toBitVec
      have hlt := Serial.elapsed_lt sn.toBitVec kcp.sndUna.toBitVec
      rw [itimediff_eq_diff, hdiff] at hnonneg
      change Serial.elapsed sn.toBitVec kcp.sndUna.toBitVec < 2 ^ 31
      split_ifs at hnonneg <;> omega
    · exact ikcpParseUna_of_stale hw.send (not_le.mp hnonneg)
  · rintro newseg rfl
    split_ifs with hnew
    · have hinsert := insertBackward_of_window hw.recv.window hnew
      rw [ikcpParseData, if_neg ((not_outside_iff hwnd newseg.sn).mpr hnew)]
      rcases hinsert with ⟨hnone, seg, hseg, hsame⟩ | ⟨l, r, hsplit, hplaced, hsome⟩
      · refine .inl ⟨⟨seg, hseg, hsame⟩, ?_⟩
        rw [show kcp.rcvBuf.reverse = kcp.recvSide.buf.reverse from rfl, hnone]
      · refine .inr ⟨l, r, hsplit, hplaced, ?_⟩
        rw [show kcp.rcvBuf.reverse = kcp.recvSide.buf.reverse from rfl, hsome]
        dsimp only
        rw [List.reverse_reverse]
    · rw [ikcpParseData, if_pos (not_not.mp ((not_outside_iff hwnd newseg.sn).not.mpr hnew))]

/-- A session that has sent three bytes, each in a segment of its own. -/
def threeSent : Ikcpcb :=
  [(7, 0), (8, 10), (9, 20)].foldl
    (fun kcp (byte, current) ↦ (ikcpUpdate (ikcpSend kcp [byte]).1 current).1)
    (configuredKcp 1001 0)

theorem reachable_threeSent : (session 1001 0).Reachable threeSent := by
  have hround : ∀ {kcp : Ikcpcb} (byte : UInt8) (current : UInt32),
      (session 1001 0).Reachable kcp →
      (session 1001 0).Reachable (ikcpUpdate (ikcpSend kcp [byte]).1 current).1 := by
    intro kcp byte current h
    have hsend : (session 1001 0).Reachable (ikcpSend kcp [byte]).1 :=
      @Lts.Reachable.step _ _ _ _ _ (.send [byte]) h rfl
    exact @Lts.Reachable.step _ _ _ _ _ (.update current) hsend rfl
  exact hround 9 20 (hround 8 10 (hround 7 0 (.init rfl)))

/-- Segments 0, 1 and 2 are outstanding, and 0 is awaited. -/
theorem scans_exact_threeSent :
    (ikcpParseAck threeSent 1).sndBuf.map IkcpSeg.sn = [0, 2] ∧
    (ikcpParseFastack threeSent 2 0).sndBuf.map IkcpSeg.fastack = [1, 1, 0] ∧
    (ikcpParseUna threeSent 2).sndBuf.map IkcpSeg.sn = [2] ∧
    ikcpParseUna threeSent (0 - 1) = threeSent ∧
    ikcpParseData threeSent { sn := 1024 } = threeSent := by
  have hexact := scans_exact reachable_threeSent
  refine ⟨?_, ?_, ?_, ?_, ?_⟩
  · rw [(hexact 1).1]
    decide +kernel
  · have hfast := (hexact 2).2.1 0
    rw [if_pos (by decide +kernel)] at hfast
    rw [hfast]
    decide +kernel
  · have huna := (hexact 2).2.2.1
    rw [if_pos (by decide +kernel)] at huna
    rw [huna]
    decide +kernel
  · have hstale := (hexact (0 - 1)).2.2.1
    rwa [if_neg (by decide +kernel)] at hstale
  · have houtside := (hexact 1024).2.2.2 { sn := 1024 } rfl
    rwa [if_neg (by decide +kernel)] at houtside

end KcpEcho
