import KcpEcho.Base.Loop
import KcpEcho.Session.Bounds
import KcpEcho.Session.Sender

/-!
# The echo loop

The `while (true)` at the end of the server's `udp_recv_cb`, as a loop without a bound on its
rounds: `echoLoop` computes its runs (`echoLoop_eq_of_run`). On a block of the server, whatever its
peer has sent, the loop comes to an end; every message it takes out is no longer than its buffer and
is taken whole by `ikcp_send`; and it stops where no message can be taken out.
-/

namespace KcpEcho

/-- A round of the loop: what `ikcp_recv` and then `ikcp_send` return. -/
structure EchoRound where
  /-- The control block the round starts from. -/
  kcp : Ikcpcb
  received : ℤ
  data : List UInt8
  sent : ℤ

/-- Where the loop is left. -/
inductive EchoReturn
  | recvFailed (nread : ℤ)
  | sendFailed (nread : ℤ)
  deriving DecidableEq, Repr

/-- The body of the loop. -/
def echoBody : LoopBody Ikcpcb EchoRound (EchoReturn × Ikcpcb) := fun kcp ↦
  let (kcp₁, received, data) := ikcpRecv kcp allocSize
  if received < 0 then .inl (.recvFailed received, kcp₁)
  else
    let (kcp₂, sent) := ikcpSend kcp₁ data
    if sent < 0 then .inl (.sendFailed sent, kcp₂) else .inr (⟨kcp, received, data, sent⟩, kcp₂)

/-- Every round takes a segment out, and `ikcp_send` puts none back. -/
theorem lowers_queued : echoBody.Lowers Ikcpcb.queued := by
  intro kcp r kcp' h
  rw [echoBody] at h
  dsimp only at h
  split_ifs at h with hrecv hsend
  obtain ⟨-, rfl⟩ := Prod.mk.inj (Sum.inr.inj h)
  have hside := (ikcpSend_frame (ikcpRecv kcp allocSize).1 (ikcpRecv kcp allocSize).2.2).2
  have hqueued : (ikcpSend (ikcpRecv kcp allocSize).1 (ikcpRecv kcp allocSize).2.2).1.queued
      = (ikcpRecv kcp allocSize).1.queued :=
    congrArg (fun side : RecvSide ↦ side.queue.length + side.buf.length) hside
  rw [hqueued]
  exact queued_ikcpRecv_lt (not_lt.mp hrecv)

/-- **`echoLoop` computes the runs of the loop**, given more fuel than there are rounds. -/
theorem echoLoop_eq_of_run {kcp : Ikcpcb} {rounds : List EchoRound} {t : EchoReturn × Ikcpcb}
    (h : echoBody.Run kcp rounds t) {fuel : ℕ} (hfuel : rounds.length < fuel) (log : EchoLog) :
    (echoLoop fuel kcp log).1 = t.2 := by
  induction h generalizing fuel log with
  | left hleft =>
    obtain ⟨fuel, rfl⟩ := Nat.exists_eq_succ_of_ne_zero (Nat.ne_of_gt hfuel)
    rw [echoBody] at hleft
    rw [echoLoop]
    dsimp only at hleft ⊢
    split_ifs at hleft with hrecv hsend
    · rw [if_pos hrecv, ← Sum.inl.inj hleft]
    · rw [if_neg hrecv, if_pos hsend, ← Sum.inl.inj hleft]
  | round hround _ ih =>
    obtain ⟨fuel, rfl⟩ := Nat.exists_eq_succ_of_ne_zero (Nat.ne_of_gt (Nat.zero_lt_of_lt hfuel))
    rw [List.length_cons] at hfuel
    rw [echoBody] at hround
    rw [echoLoop]
    dsimp only at hround ⊢
    split_ifs at hround with hrecv hsend
    obtain ⟨-, rfl⟩ := Prod.mk.inj (Sum.inr.inj hround)
    rw [if_neg hrecv, if_neg hsend]
    exact ih (Nat.lt_of_succ_lt_succ hfuel) _

theorem echo_eq_of_run {kcp : Ikcpcb} {rounds : List EchoRound} {t : EchoReturn × Ikcpcb}
    (h : echoBody.Run kcp rounds t) : (echo kcp).1 = t.2 :=
  echoLoop_eq_of_run h (Nat.lt_succ_of_le (h.length_le lowers_queued)) {}

/-! ## What is passed on -/

/-- The byte stream waiting in the send queue. -/
def Ikcpcb.waiting (kcp : Ikcpcb) : List UInt8 := kcp.sndQueue.flatMap IkcpSeg.data

theorem queueBytes_queued (queue : List IkcpSeg) :
    queueBytes (queue.map IkcpSeg.queued) = queue.flatMap IkcpSeg.data := by
  rw [queueBytes, List.flatMap_map]
  rfl

theorem waiting_of_sendSide {kcp kcp' : Ikcpcb} (h : kcp'.sendSide = kcp.sendSide) :
    kcp'.waiting = kcp.waiting := by
  rw [Ikcpcb.waiting, Ikcpcb.waiting, ← queueBytes_queued, ← queueBytes_queued]
  exact congrArg (fun side : SendSide ↦ queueBytes side.queue) h

/-- On the way from `kcp` to `kcp'` these segments were removed from the receive queue, which was
refilled from the front of `rcv_buf`. -/
def TakenOut (kcp kcp' : Ikcpcb) (segs : List IkcpSeg) : Prop :=
  ∃ moved, kcp.rcvBuf = moved ++ kcp'.rcvBuf ∧ kcp.rcvQueue ++ moved = segs ++ kcp'.rcvQueue

/-- And their payloads joined the bytes waiting to be sent. -/
structure Passed (kcp kcp' : Ikcpcb) (segs : List IkcpSeg) : Prop where
  takenOut : TakenOut kcp kcp' segs
  bytes : kcp'.waiting = kcp.waiting ++ segs.flatMap IkcpSeg.data

section Passed

variable {kcp kcp' kcp'' : Ikcpcb} {segs segs' : List IkcpSeg}

theorem TakenOut.of_recvSide (h : TakenOut kcp kcp' segs) (hside : kcp''.recvSide = kcp'.recvSide) :
    TakenOut kcp kcp'' segs := by
  have hqueue : kcp''.rcvQueue = kcp'.rcvQueue := congrArg RecvSide.queue hside
  have hbuf : kcp''.rcvBuf = kcp'.rcvBuf := congrArg RecvSide.buf hside
  rw [TakenOut, hqueue, hbuf]
  exact h

theorem Passed.refl (kcp : Ikcpcb) : Passed kcp kcp [] where
  takenOut := ⟨[], rfl, List.append_nil _⟩
  bytes := (List.append_nil _).symm

theorem Passed.trans (h : Passed kcp kcp' segs) (h' : Passed kcp' kcp'' segs') :
    Passed kcp kcp'' (segs ++ segs') where
  takenOut := by
    obtain ⟨moved, hbuf, hqueue⟩ := h.takenOut
    obtain ⟨moved', hbuf', hqueue'⟩ := h'.takenOut
    refine ⟨moved ++ moved', ?_, ?_⟩
    · rw [hbuf, hbuf', List.append_assoc]
    · rw [← List.append_assoc, hqueue, List.append_assoc, hqueue', List.append_assoc]
  bytes := by rw [h'.bytes, h.bytes, List.flatMap_append, List.append_assoc]

end Passed

/-! ## One round -/

/-- The first message of a receive queue lacks fragments: its first segment announces more of them
than the queue holds. -/
def HeadIncomplete (queue : List IkcpSeg) : Prop :=
  ∃ seg rest, queue = seg :: rest ∧ queue.length ≤ seg.frg.toNat

theorem headIncomplete_of_peeksize {kcp : Ikcpcb} (hne : kcp.rcvQueue ≠ [])
    (h : ikcpPeeksize kcp < 0) : HeadIncomplete kcp.rcvQueue := by
  obtain ⟨seg, rest, hqueue⟩ := List.exists_cons_of_ne_nil hne
  refine ⟨seg, rest, hqueue, ?_⟩
  rw [ikcpPeeksize, hqueue] at h
  dsimp only at h
  split_ifs at h with hfrg hfew
  · exact absurd h (by omega)
  · have hle : (seg.frg + 1).toNat ≤ seg.frg.toNat + 1 := by
      rw [UInt32.toNat_add]
      exact Nat.mod_le _ _
    rw [Ikcpcb.nrcvQue] at hfew
    omega
  · exact absurd h (by omega)

theorem ikcpPeeksize_eq_peekLength {kcp : Ikcpcb} (h : 0 ≤ ikcpPeeksize kcp) :
    ikcpPeeksize kcp = peekLength kcp.rcvQueue := by
  unfold ikcpPeeksize at h ⊢
  split at h
  · exact absurd h (by decide)
  · rename_i seg rest hqueue
    rw [hqueue]
    split_ifs at h with hfrg hfew
    · rw [if_pos hfrg, peekLength, if_pos hfrg]
    · exact absurd h (by decide)
    · rw [if_neg hfrg, if_neg hfew]

/-- No message can be taken out of a receive queue. -/
def AtRest (queue : List IkcpSeg) : Prop :=
  queue = [] ∨ HeadIncomplete queue ∨ 65536 < peekLength queue

/-- **What `ikcp_recv` can do** in the loop: it fails because no message can be taken out, or it
hands out the payloads of the segments it removes. -/
theorem ikcpRecv_allocSize_cases (kcp : Ikcpcb) :
    (∃ err < 0, ikcpRecv kcp allocSize = (kcp, err, []) ∧ AtRest kcp.rcvQueue) ∨
    ∃ kcp' segs data, ikcpRecv kcp allocSize = (kcp', (data.length : ℤ), data) ∧
      segs.flatMap IkcpSeg.data = data ∧ TakenOut kcp kcp' segs ∧
      (data.length : ℤ) = ikcpPeeksize kcp ∧ data.length ≤ 65536 := by
  rcases ikcpRecv_cases kcp (show 0 ≤ allocSize by decide) with
    ⟨err, herr, heq, hrest⟩ | ⟨-, hpos, hle, probe, heq⟩
  · refine .inl ⟨err, herr, heq, ?_⟩
    by_cases hempty : kcp.rcvQueue = []
    · exact .inl hempty
    by_cases hpeek : ikcpPeeksize kcp < 0
    · exact .inr (.inl (headIncomplete_of_peeksize hempty hpeek))
    · have hbig := (hrest.resolve_left hempty).resolve_left hpeek
      rw [ikcpPeeksize_eq_peekLength (not_lt.mp hpeek), allocSize] at hbig
      exact .inr (.inr (by omega))
  · obtain ⟨segs, moved, hbuf, hqueue, hdata⟩ := recvMoved_split kcp
    have hpeek := ikcpPeeksize_eq_peekLength hpos
    rw [← length_mergeFragment] at hpeek
    rw [hpeek, allocSize] at hle
    exact .inr ⟨_, segs, _, heq, hdata.symm, ⟨moved, hbuf, hqueue⟩, hpeek.symm, by omega⟩

/-- What the source asserts and expects of a round. -/
structure EchoRound.Exact (r : EchoRound) : Prop where
  /-- The sums of both walks fit an `int`. -/
  sums : peekLength r.kcp.rcvQueue < 2 ^ 31
  /-- `assert(len == peeksize)`. -/
  asserted : (r.data.length : ℤ) = ikcpPeeksize r.kcp
  received : 0 ≤ r.received ∧ r.received ≤ 65536 ∧ r.data.length = r.received
  /-- `ikcp_send` takes the message whole. -/
  sent : r.sent = r.received

section Round

variable {conv : UInt32} {user : Ptr} {kcp : Ikcpcb}

theorem Framed.waiting_send (hf : Framed conv user kcp) {buffer : List UInt8}
    (hlen : buffer.length ≤ sendLimit sessionMss) :
    (ikcpSend kcp buffer).1.waiting = kcp.waiting ++ buffer := by
  obtain ⟨queue, n, heq, -, hbytes, hn, -⟩ := ikcpSend_spec
    (by rw [hf.stream_eq]; decide) (by rw [hf.mss_eq]; decide) (hf.mss_eq ▸ hf.queue) buffer
  rw [hf.send_eq_length hlen, Int.toNat_natCast] at hn
  rw [queueBytes_queued, queueBytes_queued, hn, List.take_length] at hbytes
  rw [heq]
  exact hbytes

/-- **What the body can do** on a block of the server: it is left by `ikcp_recv` and nothing has
changed, or it passes a message on. -/
theorem echoBody_cases (hf : Framed conv user kcp) (hb : RecvBounded kcp) :
    (∃ err < 0, echoBody kcp = .inl (.recvFailed err, kcp) ∧ AtRest kcp.rcvQueue) ∨
    ∃ r kcp' segs, echoBody kcp = .inr (r, kcp') ∧ r.Exact ∧ Framed conv user kcp' ∧
      RecvBounded kcp' ∧ Passed kcp kcp' segs ∧ segs.flatMap IkcpSeg.data = r.data := by
  rcases ikcpRecv_allocSize_cases kcp with
    ⟨err, herr, heq, hrest⟩ | ⟨kcp₁, segs, data, heq, hdata, htaken, hpeek, hlen⟩
  · refine .inl ⟨err, herr, ?_, hrest⟩
    rw [echoBody, heq]
    exact if_pos herr
  · have hf₁ := hf.recv allocSize
    have hb₁ := hb.recv
    have hkept := (ikcpRecv_frame kcp allocSize).2
    rw [heq] at hf₁ hb₁ hkept
    -- the message fits 127 segments, so `ikcp_send` takes all of it
    have hshort : data.length ≤ sendLimit sessionMss := hlen.trans (by decide)
    have hsent := hf₁.send_eq_length hshort
    have hbytes := hf₁.waiting_send hshort
    have hnonneg : ¬(data.length : ℤ) < 0 := not_lt.mpr (Int.natCast_nonneg _)
    refine .inr ⟨⟨kcp, data.length, data, data.length⟩, (ikcpSend kcp₁ data).1, segs, ?_, ?_,
      hf₁.send data, hb₁.send data, ⟨?_, ?_⟩, hdata⟩
    · rw [echoBody, heq]
      dsimp only
      rw [if_neg hnonneg, hsent, if_neg hnonneg]
    · exact ⟨hb.peekLength_lt, hpeek, ⟨Int.natCast_nonneg _, by dsimp only; omega, rfl⟩, rfl⟩
    · exact htaken.of_recvSide (ikcpSend_frame kcp₁ data).2
    · rw [hbytes, hdata, waiting_of_sendSide hkept]

end Round

/-! ## Whole runs -/

/-- What the loop has done when it started on `kcp`, made these rounds and left `kcp'`. -/
structure EchoConserves (kcp : Ikcpcb) (rounds : List EchoRound) (kcp' : Ikcpcb) : Prop where
  exact : ∀ r ∈ rounds, r.Exact
  passed : ∃ segs, Passed kcp kcp' segs ∧ segs.flatMap IkcpSeg.data = rounds.flatMap EchoRound.data
  rest : AtRest kcp'.rcvQueue

/-- **The loop conserves bytes.** It is left at a failing `ikcp_recv`, never at an `ikcp_send`. -/
theorem conserves_of_run {conv : UInt32} {user : Ptr} {kcp : Ikcpcb} (hf : Framed conv user kcp)
    (hb : RecvBounded kcp) {rounds : List EchoRound} {t : EchoReturn × Ikcpcb}
    (h : echoBody.Run kcp rounds t) :
    ∃ err < 0, t.1 = .recvFailed err ∧ EchoConserves kcp rounds t.2 := by
  induction h with
  | @left kcp t hleft =>
    rcases echoBody_cases hf hb with
      ⟨err, herr, heq, hrest⟩ | ⟨r, kcp', segs, heq, -⟩
    · obtain rfl := Sum.inl.inj (hleft.symm.trans heq)
      exact ⟨err, herr, rfl, fun _ hr ↦ absurd hr List.not_mem_nil, ⟨[], .refl kcp, rfl⟩, hrest⟩
    · exact nomatch hleft.symm.trans heq
  | @round kcp kcp' r rounds t hround _ ih =>
    rcases echoBody_cases hf hb with
      ⟨err, -, heq, -⟩ | ⟨r₁, kcp₁, segs, heq, hexact, hf₁, hb₁, hpassed, hdata⟩
    · exact nomatch heq.symm.trans hround
    · obtain ⟨rfl, rfl⟩ := Prod.mk.inj (Sum.inr.inj (heq.symm.trans hround))
      obtain ⟨err, herr, hret, hrest⟩ := ih hf₁ hb₁
      obtain ⟨segs', hpassed', hdata'⟩ := hrest.passed
      refine ⟨err, herr, hret, ?_, ⟨segs ++ segs', hpassed.trans hpassed', ?_⟩, hrest.rest⟩
      · intro r hr
        rcases List.mem_cons.mp hr with rfl | hr
        · exact hexact
        · exact hrest.exact r hr
      · rw [List.flatMap_append, List.flatMap_cons, hdata, hdata']

end KcpEcho
