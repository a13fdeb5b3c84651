import KcpEcho.Session.Sender

/-!
# The receiving end of a stream

How the receive side of a control block represents the receiving end of a `Link`. The stream up to
`rcv_nxt` has been delivered: it is what was taken out, followed by what lies in `rcv_queue`. The
numbers received out of order wait in `rcv_buf`, sorted.

`rcv_queue` never fills up: what it holds has been delivered since the last handler ended, and the
sender is never a whole window ahead of what was delivered then (`RecvSide.Delivered.room`). So
`ikcp_parse_data` always moves everything it can, and the loops of the two programs, which empty
the queue, have nothing left to move.
-/

namespace KcpEcho

open SelectiveRepeat

/-- The first `n` segments of the stream have been delivered; `taken` is what `ikcp_recv` has
handed out. -/
structure RecvSide.Delivered (side : RecvSide) (l : Stream) (n : ℕ) (taken : List UInt8) : Prop
    where
  nxt : side.nxt = UInt32.ofNat n
  got : ∀ k < n, k ∈ l.got
  queue : ∀ seg ∈ side.queue, seg.frg = 0 ∧ seg.data.length ≤ sessionMss
  bytes : taken ++ side.queue.flatMap IkcpSeg.data = (l.sent.take n).flatten
  room : l.una + side.queue.length ≤ n

/-- The receive side of a block represents the receiving end of a stream. -/
structure RecvSide.Represents (side : RecvSide) (l : Stream) (taken : List UInt8) : Prop
    extends side.Delivered l l.nxt taken where
  buf : Enumerates (Carries l.sent) l.waiting (side.buf.map IkcpSeg.body)

/-- Every pending acknowledgement is for a stored number, and not for one too old to be told apart
from the numbers in use. -/
def RecvSide.Reports (side : RecvSide) (l : Stream) : Prop :=
  ∀ a ∈ side.acks, ∃ k ∈ l.got, a.1 = UInt32.ofNat k ∧ l.reported ≤ k + 2 ^ 29 + 2 ^ 10

/-! ## Storing a segment -/

section Store

variable {kcp : Ikcpcb} {l : Stream} {taken : List UInt8} {sent : List (List UInt8)} {s : Set ℕ}

theorem acklist_moveAvailableLoop (segs : List IkcpSeg) (kcp : Ikcpcb) :
    (moveAvailableLoop segs kcp).acklist = kcp.acklist := by
  induction segs generalizing kcp with
  | nil => rfl
  | cons seg rest ih =>
    rw [moveAvailableLoop]
    split
    · exact ih _
    · rfl

theorem acklist_ikcpParseData (kcp : Ikcpcb) (newseg : IkcpSeg) :
    (ikcpParseData kcp newseg).acklist = kcp.acklist := by
  unfold ikcpParseData
  split
  · rfl
  · exact acklist_moveAvailableLoop _ _

theorem RecvSide.Delivered.succ {n : ℕ} (h : kcp.recvSide.Delivered l n taken)
    (hpayload : ∀ d ∈ l.sent, d.length ≤ sessionMss) (hn : n ∈ l.got) {seg : IkcpSeg}
    (hseg : Carries l.sent n seg.body) :
    ({ kcp with rcvQueue := kcp.rcvQueue ++ [seg], rcvNxt := kcp.rcvNxt + 1 } :
      Ikcpcb).recvSide.Delivered l (n + 1) taken where
  nxt := by
    have hnxt : kcp.rcvNxt = UInt32.ofNat n := h.nxt
    rw [UInt32.ofNat_add, ← hnxt]
    rfl
  got k hk := by
    rcases Nat.lt_succ_iff_lt_or_eq.mp hk with hk | rfl
    · exact h.got k hk
    · exact hn
  queue e he := by
    rcases List.mem_append.mp he with he | he
    · exact h.queue e he
    · obtain rfl := List.mem_singleton.mp he
      exact ⟨hseg.frg, hpayload _ (List.mem_of_getElem? hseg.data)⟩
  bytes := by
    have hdata : l.sent[n]? = some seg.data := hseg.data
    rw [List.take_add_one, hdata, List.flatten_append, ← h.bytes, List.append_assoc]
    simp [Ikcpcb.recvSide]
  room := by
    have hroom := h.room
    simp only [Ikcpcb.recvSide, List.length_append, List.length_singleton] at hroom ⊢
    omega

/-- **The move from `rcv_buf` to `rcv_queue`** takes everything up to the first gap. -/
theorem represents_moveAvailableLoop {n : ℕ} {segs : List IkcpSeg}
    (h : kcp.recvSide.Delivered l n taken) (hl : l.Inv sessionWindow)
    (hpayload : ∀ d ∈ l.sent, d.length ≤ sessionMss) (hwnd : kcp.rcvWnd.toNat = sessionWindow)
    (hbuf : Enumerates (Carries l.sent) {k | k ∈ l.got ∧ n ≤ k} (segs.map IkcpSeg.body)) :
    (moveAvailableLoop segs kcp).recvSide.Represents l taken := by
  -- without `n` itself the stream is delivered up to the gap
  have hgap : n ∉ l.got → l.nxt = n := first_eq h.got
  induction segs generalizing kcp n with
  | nil =>
    have hn : l.nxt = n := hgap fun hn ↦ by
      have hmem : n ∈ {k | k ∈ l.got ∧ n ≤ k} := ⟨hn, le_rfl⟩
      rw [hbuf.eq_empty] at hmem
      exact hmem
    subst hn
    exact ⟨⟨h.nxt, h.got, h.queue, h.bytes, h.room⟩, hbuf⟩
  | cons seg rest ih =>
    obtain ⟨k, hk, hle, hcar, htail⟩ := hbuf.uncons
    have hwindow := hl.window
    have hroom : l.una + kcp.rcvQueue.length ≤ n := h.room
    have hlt := hl.got_sent k hk.1
    have hnk : n ≤ k := hk.2
    rw [sessionWindow] at hwindow hwnd
    have hnext : seg.sn = kcp.rcvNxt ↔ k = n := by
      rw [show seg.sn = UInt32.ofNat k from hcar.sn, show kcp.rcvNxt = UInt32.ofNat n from h.nxt]
      exact ofNat32_inj (by constructor <;> omega)
    rw [moveAvailableLoop]
    by_cases hkn : k = n
    · subst hkn
      rw [if_pos ⟨hnext.mpr rfl, by rw [hwnd, Ikcpcb.nrcvQue]; omega⟩]
      have hsucc := h.succ hpayload hk.1 hcar
      refine ih hsucc hwnd (htail.of_eq ?_) (first_eq hsucc.got)
      ext j
      simp only [Set.mem_sdiff, Set.mem_ofPred_eq, Set.mem_singleton_iff]
      constructor
      · rintro ⟨hj, hne⟩
        exact ⟨hj.1, by omega⟩
      · rintro ⟨hj, hlt⟩
        exact ⟨⟨hj, by omega⟩, by omega⟩
    · rw [if_neg (fun hcond ↦ hkn (hnext.mp hcond.1))]
      have hn : l.nxt = n := hgap fun hn ↦ hkn (le_antisymm (hle n ⟨hn, le_rfl⟩) hnk)
      subst hn
      exact ⟨⟨h.nxt, h.got, h.queue, h.bytes, h.room⟩, hbuf⟩

/-- **The backward scan of `ikcp_parse_data`** finds the place of a number, or the number. -/
theorem insertBackward_cases {newseg : IkcpSeg} {k : ℕ} {segs : List IkcpSeg}
    (hnew : Carries sent k newseg.body)
    (h : Enumerates (Carries sent) s (segs.map IkcpSeg.body))
    (hnear : ∀ j ∈ s, Serial.Near (2 ^ 31) k j) :
    (insertBackward newseg segs.reverse = none ∧ k ∈ s) ∨
      ∃ buf : List IkcpSeg, insertBackward newseg segs.reverse = some buf.reverse ∧
        Enumerates (Carries sent) (insert k s) (buf.map IkcpSeg.body) := by
  induction segs using List.reverseRecOn generalizing s with
  | nil =>
    refine .inr ⟨[newseg], rfl, .cons ?_ hnew h⟩
    intro j hj
    rw [h.eq_empty] at hj
    exact absurd hj (Set.notMem_empty j)
  | append_singleton rest seg ih =>
    have hfull := h
    rw [List.map_append, List.map_singleton] at h
    obtain ⟨j, hj, hge, hcar, hinit⟩ := h.unconcat
    have hsn : seg.sn = UInt32.ofNat j := hcar.sn
    have hsn' : newseg.sn = UInt32.ofNat k := hnew.sn
    have hdiff := itimediff_ofNat (hnear j hj)
    have heq := ofNat32_inj ((hnear j hj).symm.mono (by norm_num : 2 ^ 31 ≤ 2 ^ 32))
    rw [List.reverse_concat, insertBackward, hsn, hsn', hdiff]
    rcases lt_trichotomy k j with hlt | rfl | hgt
    · -- the place is further to the front
      rw [if_neg (fun h ↦ hlt.ne' (heq.mp h)), if_neg (by omega)]
      rcases ih hinit (fun i hi ↦ hnear i hi.1) with ⟨hnone, hk⟩ | ⟨buf, hsome, hbuf⟩
      · exact .inl ⟨by rw [hnone]; rfl, hk.1⟩
      · refine .inr ⟨buf ++ [seg], by rw [hsome, List.reverse_concat]; rfl, ?_⟩
        rw [List.map_append, List.map_singleton]
        refine (hbuf.concat (fun i hi ↦ ?_) hcar).of_eq ?_
        · rcases Set.mem_insert_iff.mp hi with rfl | hi
          · exact hlt
          · exact lt_of_le_of_ne (hge i hi.1) hi.2
        · rw [Set.insert_comm, Set.insert_sdiff_singleton, Set.insert_eq_of_mem hj]
    · rw [if_pos rfl]
      exact .inl ⟨rfl, hj⟩
    · -- the place is right behind this one
      rw [if_neg (fun h ↦ hgt.ne (heq.mp h)), if_pos (by omega)]
      refine .inr ⟨rest ++ [seg] ++ [newseg], by simp, ?_⟩
      rw [List.map_append, List.map_singleton]
      exact hfull.concat (fun i hi ↦ (hge i hi).trans_lt hgt) hnew

theorem waiting_insert {k : ℕ} (hk : l.nxt ≤ k) :
    ({j | j ∈ insert k l.got ∧ l.nxt ≤ j} : Set ℕ) = insert k l.waiting := by
  ext j
  simp only [Link.waiting, Set.mem_ofPred_eq, Set.mem_insert_iff]
  constructor
  · rintro ⟨rfl | hj, hle⟩
    · exact .inl rfl
    · exact .inr ⟨hj, hle⟩
  · rintro (rfl | ⟨hj, hle⟩)
    · exact ⟨.inl rfl, hk⟩
    · exact ⟨.inr hj, hle⟩

theorem RecvSide.Represents.itimediff_window (h : kcp.recvSide.Represents l taken)
    (hl : l.Inv sessionWindow) (hwnd : kcp.rcvWnd = 1024) {k : ℕ} (hk : k < l.sent.length)
    (hnear : l.sent.length ≤ k + 2 ^ 29 + 2 ^ 10) :
    itimediff (UInt32.ofNat k) (kcp.rcvNxt + kcp.rcvWnd) = (k : ℤ) - (l.nxt + 1024 : ℕ) ∧
      itimediff (UInt32.ofNat k) kcp.rcvNxt = (k : ℤ) - l.nxt := by
  have hchain := hl.chain
  rw [sessionWindow] at hchain
  have hnxt : kcp.rcvNxt = UInt32.ofNat l.nxt := h.nxt
  have hend : kcp.rcvNxt + kcp.rcvWnd = UInt32.ofNat (l.nxt + 1024) := by
    rw [hwnd, hnxt, UInt32.ofNat_add]
    rfl
  constructor
  · rw [hend]
    exact itimediff_ofNat (by constructor <;> omega)
  · rw [hnxt]
    exact itimediff_ofNat (by constructor <;> omega)

theorem RecvSide.Represents.parseData (h : kcp.recvSide.Represents l taken)
    (hl : l.Inv sessionWindow) (hpayload : ∀ d ∈ l.sent, d.length ≤ sessionMss)
    (hwnd : kcp.rcvWnd = 1024) {newseg : IkcpSeg} {k : ℕ}
    (hnew : Carries l.sent k newseg.body) (hk : l.nxt ≤ k) :
    (ikcpParseData kcp newseg).recvSide.Represents { l with got := insert k l.got } taken := by
  have hlt := hnew.lt_length
  have hchain := hl.chain
  rw [sessionWindow] at hchain
  have hsn : newseg.sn = UInt32.ofNat k := hnew.sn
  obtain ⟨habove, hbelow⟩ := h.itimediff_window hl hwnd hlt (by omega)
  have hdelivered : ∀ buf : List IkcpSeg, ({ kcp with rcvBuf := buf } : Ikcpcb).recvSide.Delivered
      { l with got := insert k l.got } l.nxt taken := fun _ ↦
    ⟨h.nxt, fun j hj ↦ Set.mem_insert_of_mem k (h.got j hj), h.queue, h.bytes, h.room⟩
  have hnear : ∀ j ∈ l.waiting, Serial.Near (2 ^ 31) k j := by
    intro j hj
    have hj' := hl.got_sent j hj.1
    have hle : l.nxt ≤ j := hj.2
    constructor <;> omega
  have hstored := hl.store hlt
  have hwnd' : kcp.rcvWnd.toNat = sessionWindow := by rw [hwnd]; rfl
  rw [ikcpParseData, hsn, habove, hbelow, if_neg (by omega)]
  rcases insertBackward_cases hnew h.buf hnear with ⟨hnone, hmem⟩ | ⟨buf, hsome, hbuf⟩
  · rw [show kcp.rcvBuf.reverse = kcp.recvSide.buf.reverse from rfl, hnone]
    refine represents_moveAvailableLoop (hdelivered _) hstored hpayload hwnd' (h.buf.of_eq ?_)
    rw [waiting_insert hk, Set.insert_eq_of_mem hmem]
  · rw [show kcp.rcvBuf.reverse = kcp.recvSide.buf.reverse from rfl, hsome]
    dsimp only
    rw [List.reverse_reverse]
    exact represents_moveAvailableLoop (hdelivered _) hstored hpayload hwnd'
      (hbuf.of_eq (waiting_insert hk).symm)

/-- A segment of the stream is never at or beyond the end of the receive window. -/
theorem RecvSide.Represents.inWindow (h : kcp.recvSide.Represents l taken)
    (hl : l.Inv sessionWindow) (hwnd : kcp.rcvWnd = 1024) {k : ℕ} (hk : k < l.sent.length)
    (hnear : l.sent.length ≤ k + 2 ^ 29 + 2 ^ 10) :
    KcpEcho.inWindow kcp (UInt32.ofNat k) = true := by
  have hchain := hl.chain
  rw [sessionWindow] at hchain
  rw [KcpEcho.inWindow, (h.itimediff_window hl hwnd hk hnear).1, decide_eq_true_eq]
  omega

/-- **The `IKCP_CMD_PUSH` branch** stores a segment of the stream, or knows it already, and will
acknowledge it either way. -/
theorem RecvSide.Represents.inputPush (h : kcp.recvSide.Represents l taken)
    (hreports : kcp.recvSide.Reports l) (hl : l.Inv sessionWindow)
    (hpayload : ∀ d ∈ l.sent, d.length ≤ sessionMss) (hwnd : kcp.rcvWnd = 1024)
    {hd : IkcpHeader} {data : List UInt8} {k : ℕ} (hnew : Carries l.sent k (hd.segment data).body)
    (hnear : l.sent.length ≤ k + 2 ^ 29 + 2 ^ 10) :
    (inputPush kcp hd data).recvSide.Represents { l with got := insert k l.got } taken ∧
      (inputPush kcp hd data).recvSide.Reports { l with got := insert k l.got } := by
  have hlt := hnew.lt_length
  have hchain := hl.chain
  rw [sessionWindow] at hchain
  have hsn : hd.sn = UInt32.ofNat k := hnew.sn
  have hwin : KcpEcho.inWindow kcp hd.sn = true := hsn ▸ h.inWindow hl hwnd hlt hnear
  have hpushed : (ikcpAckPush kcp hd.sn hd.ts).recvSide.Represents l taken :=
    ⟨⟨h.nxt, h.got, h.queue, h.bytes, h.room⟩, h.buf⟩
  have hacks : ∀ a ∈ kcp.acklist ++ [(hd.sn, hd.ts)], ∃ j ∈ insert k l.got,
      a.1 = UInt32.ofNat j ∧ l.reported ≤ j + 2 ^ 29 + 2 ^ 10 := by
    intro a ha
    rcases List.mem_append.mp ha with ha | ha
    · obtain ⟨j, hj, hrest⟩ := hreports a ha
      exact ⟨j, Set.mem_insert_of_mem k hj, hrest⟩
    · obtain rfl := List.mem_singleton.mp ha
      exact ⟨k, Set.mem_insert k _, hsn, by omega⟩
  have hbelow := (h.itimediff_window hl hwnd hlt hnear).2
  rw [← hsn] at hbelow
  rw [KcpEcho.inputPush, if_pos hwin]
  dsimp only
  by_cases hk : l.nxt ≤ k
  · rw [if_pos (by rw [show (ikcpAckPush kcp hd.sn hd.ts).rcvNxt = kcp.rcvNxt from rfl]; omega)]
    refine ⟨hpushed.parseData hl hpayload hwnd hnew hk, ?_⟩
    change ∀ a ∈ (ikcpParseData _ _).acklist, _
    rw [acklist_ikcpParseData]
    exact hacks
  · -- delivered already: only the acknowledgement is repeated
    have hsame : insert k l.got = l.got := Set.insert_eq_of_mem (h.got k (not_le.mp hk))
    rw [if_neg (by rw [show (ikcpAckPush kcp hd.sn hd.ts).rcvNxt = kcp.rcvNxt from rfl]; omega)]
    rw [hsame] at hacks ⊢
    exact ⟨hpushed, hacks⟩

/-! ## The head of the buffer -/

/-- The head of `rcv_buf` is not the next number. -/
def RecvSide.Settled (side : RecvSide) : Prop := ∀ seg ∈ side.buf.head?, seg.sn ≠ side.nxt

theorem RecvSide.Represents.settled {side : RecvSide} (h : side.Represents l taken)
    (hl : l.Inv sessionWindow) : side.Settled := by
  intro seg hseg
  obtain ⟨rest, hbuf⟩ := List.head?_eq_some_iff.mp hseg
  have henum := h.buf
  rw [hbuf] at henum
  obtain ⟨k, hk, -, hcar, -⟩ := henum.uncons
  have hsn : seg.sn = UInt32.ofNat k := hcar.sn
  have hlt := hl.got_sent k hk.1
  have hle : l.nxt ≤ k := hk.2
  have hchain := hl.chain
  rw [sessionWindow] at hchain
  rw [hsn, h.nxt]
  intro heq
  obtain rfl := (ofNat32_inj (by constructor <;> omega)).mp heq
  exact first_notMem hl.length_notMem_got hk.1

theorem moveAvailable_of_settled (h : kcp.recvSide.Settled) : moveAvailable kcp = kcp := by
  cases hbuf : kcp.rcvBuf with
  | nil =>
    rw [moveAvailable, hbuf, moveAvailableLoop, ← hbuf]
  | cons seg rest =>
    have hne : seg.sn ≠ kcp.rcvNxt := h seg (by simp [Ikcpcb.recvSide, hbuf])
    rw [moveAvailable, hbuf, moveAvailableLoop, if_neg (fun hcond ↦ hne hcond.1), ← hbuf]

/-- **One round of either loop**: `ikcp_recv` hands out the data of the head of the queue and has
nothing to move up. -/
theorem ikcpRecv_of_settled (h : kcp.recvSide.Settled) {seg : IkcpSeg} {rest : List IkcpSeg}
    (hqueue : kcp.rcvQueue = seg :: rest) (hseg : seg.frg = 0 ∧ seg.data.length ≤ sessionMss) :
    ∃ probe, ikcpRecv kcp allocSize =
      ({ kcp with rcvQueue := rest, probe := probe }, (seg.data.length : ℤ), seg.data) := by
  have hne : kcp.rcvQueue ≠ [] := by rw [hqueue]; exact List.cons_ne_nil _ _
  have hpeek : ikcpPeeksize kcp = seg.data.length := by
    simp [ikcpPeeksize, hqueue, hseg.1, IkcpSeg.len]
  have hmerge : mergeFragment kcp.rcvQueue = (seg.data, rest) := by
    rw [hqueue, mergeFragment, if_pos hseg.1]
  have hfit := hseg.2
  rw [sessionMss] at hfit
  rcases ikcpRecv_cases kcp (show 0 ≤ allocSize by decide) with
    ⟨r, -, -, hempty | hneg | hbig⟩ | ⟨-, -, -, probe, heq⟩
  · exact absurd hempty hne
  · rw [hpeek] at hneg
    omega
  · rw [hpeek, allocSize] at hbig
    omega
  · have hmoved : recvMoved kcp = { kcp with rcvQueue := rest } := by
      rw [recvMoved, hmerge]
      exact @moveAvailable_of_settled { kcp with rcvQueue := rest } h
    exact ⟨probe, by rw [heq, hmerge, hmoved]⟩

theorem ikcpRecv_of_empty (hqueue : kcp.rcvQueue = []) : ikcpRecv kcp allocSize = (kcp, -1, []) :=
  if_pos hqueue

end Store
end KcpEcho
