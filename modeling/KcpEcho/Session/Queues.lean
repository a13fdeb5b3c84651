import KcpEcho.Ikcp.Custody
import KcpEcho.Session.EchoLoop

/-!
# The queues in memory read as lists

`Represents m kcp`: the queues of `m` are rings of all the segments there are, the counters count
them, and `kcp` is the block of the list model with the same contents. Every function that works on
links, counters and segments then succeeds and does what its list counterpart does.
-/

namespace KcpEcho

open RingList

/-- The block with its lists replaced. -/
def Ikcpcb.withQueues (kcp : Ikcpcb) (f : Queue → List IkcpSeg) : Ikcpcb :=
  { kcp with
    sndQueue := f .sndQueue
    rcvQueue := f .rcvQueue
    sndBuf := f .sndBuf
    rcvBuf := f .rcvBuf }

namespace LinkedCb

/-- The block of the list model. -/
def block (m : LinkedCb) (cells : Cells) : Ikcpcb :=
  m.ctl.withQueues fun q ↦ (cells q).map Prod.snd

/-- The counter of a queue. -/
def count (m : LinkedCb) : Queue → UInt32
  | .sndQueue => m.nsndQue
  | .rcvQueue => m.nrcvQue
  | .sndBuf => m.nsndBuf
  | .rcvBuf => m.nrcvBuf

/-- The queues hold `cells`, nothing is in anybody's hands, and the counters count. Of the counters
only `nrcv_que` is read, and it never wraps. -/
structure Stores (m : LinkedCb) (cells : Cells) : Prop where
  holds : ∃ owner, Holds m cells owner ∧ ∀ p, owner p ≠ some .loose
  counted : ∀ q, m.count q = UInt32.ofNat (cells q).length
  small : (cells .rcvQueue).length < 2 ^ 32

/-- `kcp` is what the list model sees of `m`. -/
def Represents (m : LinkedCb) (kcp : Ikcpcb) : Prop := ∃ cells, Stores m cells ∧ m.block cells = kcp

variable {m m' : LinkedCb} {cells : Cells} {q : Queue} {kcp : Ikcpcb} {c : Ptr × IkcpSeg}
  {l r cs : List (Ptr × IkcpSeg)} {seg : IkcpSeg}

/-! ## Blocks and their queues -/

theorem block_sndBuf (hctl : m'.ctl = m.ctl) (cs : List (Ptr × IkcpSeg)) :
    m'.block (Function.update cells .sndBuf cs) =
      { m.block cells with sndBuf := cs.map Prod.snd } := by
  simp [block, Ikcpcb.withQueues, hctl]

theorem block_rcvBuf (hctl : m'.ctl = m.ctl) (cs : List (Ptr × IkcpSeg)) :
    m'.block (Function.update cells .rcvBuf cs) =
      { m.block cells with rcvBuf := cs.map Prod.snd } := by
  simp [block, Ikcpcb.withQueues, hctl]

theorem block_sndQueue (hctl : m'.ctl = m.ctl) (cs : List (Ptr × IkcpSeg)) :
    m'.block (Function.update cells .sndQueue cs) =
      { m.block cells with sndQueue := cs.map Prod.snd } := by
  simp [block, Ikcpcb.withQueues, hctl]

theorem block_rcvQueue (hctl : m'.ctl = m.ctl) (cs : List (Ptr × IkcpSeg)) :
    m'.block (Function.update cells .rcvQueue cs) =
      { m.block cells with rcvQueue := cs.map Prod.snd } := by
  simp [block, Ikcpcb.withQueues, hctl]

/-- Nothing is in anybody's hands after a segment was taken up and put down. -/
theorem not_loose_update {owner : Ptr → Option Place} (hloose : ∀ p, owner p ≠ some .loose)
    {x : Ptr} {o o' : Option Place} (ho : o' ≠ some .loose) :
    ∀ p, Function.update (Function.update owner x o) x o' p ≠ some .loose := by
  intro p
  rw [Function.update_idem, Function.update_apply]
  split_ifs
  · exact ho
  · exact hloose p

/-! ## Steps that leave no segment in anybody's hands -/

namespace Stores

/-- Scalars do not matter. -/
theorem withCtl (h : Stores m cells) (ctl : Ikcpcb) : Stores { m with ctl := ctl } cells := by
  obtain ⟨owner, hown, hloose⟩ := h.holds
  exact ⟨⟨owner, hown.congr rfl rfl rfl, hloose⟩, h.counted, h.small⟩

theorem nrcvQue (h : Stores m cells) : m.nrcvQue.toNat = (cells .rcvQueue).length := by
  rw [show m.nrcvQue = _ from h.counted .rcvQueue, UInt32.toNat_ofNat_of_lt' h.small]

theorem length_lt_fuel (h : Stores m cells) (q : Queue) : (cells q).length < m.fuel := by
  obtain ⟨owner, hown, -⟩ := h.holds
  exact hown.length_lt_fuel q

theorem isEmpty (h : Stores m cells) (q : Queue) : m.isEmpty q = some (cells q).isEmpty := by
  obtain ⟨owner, hown, -⟩ := h.holds
  exact hown.isEmpty

theorem next_head (h : Stores m cells) (q : Queue) :
    m.links.next (.head q) = some (q.nodeAhead (cells q)) := by
  obtain ⟨owner, hown, -⟩ := h.holds
  exact hown.next_head

theorem prev_head (h : Stores m cells) (q : Queue) :
    m.links.prev (.head q) = some (q.nodeBehind (cells q)) := by
  obtain ⟨owner, hown, -⟩ := h.holds
  exact hown.prev_head

theorem linked_member (h : Stores m cells) (hcells : cells q = l ++ c :: r) :
    m.links.next (.seg c.1) = some (q.nodeAhead r) ∧
      m.links.prev (.seg c.1) = some (q.nodeBehind l) := by
  obtain ⟨owner, hown, -⟩ := h.holds
  exact hown.linked_member hcells

theorem entry_member (h : Stores m cells) (hcells : cells q = l ++ c :: r) :
    m.entry (.seg c.1) = some c := by
  obtain ⟨owner, hown, -⟩ := h.holds
  exact hown.entry_member hcells

theorem front (h : Stores m cells) (hcells : cells q = c :: r) : m.front q = some c := by
  obtain ⟨owner, hown, -⟩ := h.holds
  exact hown.front hcells

/-- Writing the fields of a segment in its queue. -/
theorem setSeg (h : Stores m cells) (hcells : cells q = l ++ c :: r) (seg : IkcpSeg) :
    ∃ segs, m.setSeg c.1 seg = some { m with segs := segs } ∧
      Stores { m with segs := segs } (Function.update cells q (l ++ (c.1, seg) :: r)) := by
  obtain ⟨owner, hown, hloose⟩ := h.holds
  obtain ⟨segs, hset, hown'⟩ := hown.setSeg hcells seg
  have hlength : ∀ q', (Function.update cells q (l ++ (c.1, seg) :: r) q').length
      = (cells q').length := by
    intro q'
    by_cases hq : q' = q
    · rw [hq, Function.update_self, hcells]
      simp
    · rw [Function.update_of_ne hq]
  refine ⟨segs, hset, ⟨owner, hown', hloose⟩, fun q' ↦ ?_, ?_⟩
  · rw [hlength]
    exact h.counted q'
  · rw [hlength]
    exact h.small

/-- One queue has changed, and its counter with it. -/
theorem of_update (h : Stores m cells) {owner : Ptr → Option Place}
    (hown : Holds m' (Function.update cells q cs) owner) (hloose : ∀ p, owner p ≠ some .loose)
    (hcount : m'.count q = UInt32.ofNat cs.length) (hother : ∀ q', q' ≠ q → m'.count q' = m.count q')
    (hsmall : q = .rcvQueue → cs.length < 2 ^ 32) : Stores m' (Function.update cells q cs) where
  holds := ⟨owner, hown, hloose⟩
  counted q' := by
    by_cases hq : q' = q
    · rw [hq, Function.update_self]
      exact hcount
    · rw [Function.update_of_ne hq, hother q' hq]
      exact h.counted q'
  small := by
    by_cases hq : q = .rcvQueue
    · rw [hq, Function.update_self]
      exact hsmall hq
    · rw [Function.update_of_ne (Ne.symm hq)]
      exact h.small

/-- Unlinking a segment and freeing it. -/
theorem unlink (h : Stores m cells) (hcells : cells q = l ++ c :: r) :
    ∃ links segs links' owner, m.del c.1 = some { m with links := links } ∧
      { m with links := links }.segmentDelete c.1 =
        some { m with segs := segs, links := links' } ∧
      Holds { m with segs := segs, links := links' } (Function.update cells q (l ++ r)) owner ∧
      ∀ p, owner p ≠ some .loose := by
  obtain ⟨owner, hown, hloose⟩ := h.holds
  obtain ⟨links, hdel, hown'⟩ := hown.del hcells
  obtain ⟨segs, links', hdelete, hown''⟩ := hown'.segmentDelete (Function.update_self _ _ _)
  exact ⟨links, segs, links', _, hdel, hdelete, hown'', not_loose_update hloose (by simp)⟩

/-- The count of a queue that has lost a segment. -/
theorem count_pred (h : Stores m cells) (hcells : cells q = l ++ c :: r) :
    m.count q - 1 = UInt32.ofNat (l ++ r).length := by
  rw [h.counted, hcells, List.length_append, List.length_cons, ← Nat.add_assoc, UInt32.ofNat_add,
    List.length_append]
  exact UInt32.add_sub_cancel _ _

/-- The count of a queue that has got a segment. -/
theorem count_succ (h : Stores m cells) (q : Queue) :
    m.count q + 1 = UInt32.ofNat (cells q ++ [c]).length := by
  rw [h.counted, List.length_append, List.length_singleton, UInt32.ofNat_add]
  rfl

theorem dropSent (h : Stores m cells) (hcells : cells .sndBuf = l ++ c :: r) :
    ∃ m', m.dropSent c.1 = some m' ∧ Stores m' (Function.update cells .sndBuf (l ++ r)) ∧
      m'.ctl = m.ctl := by
  obtain ⟨links, segs, links', owner, hdel, hdelete, hown, hloose⟩ := h.unlink hcells
  refine ⟨{ m with segs := segs, links := links', nsndBuf := m.nsndBuf - 1 }, ?_, ?_, rfl⟩
  · rw [LinkedCb.dropSent, hdel, Option.bind_eq_bind, Option.bind_some, hdelete,
      Option.bind_some]
  · refine h.of_update (hown.congr rfl rfl rfl) hloose (h.count_pred hcells) ?_ (by simp)
    intro q' hq'
    cases q' <;> first | rfl | exact absurd rfl hq'

/-- Moving the first segment of one queue to the end of another. -/
theorem transfer (h : Stores m cells) (q' : Queue) (hq : q ≠ q') (hcells : cells q = c :: r) :
    ∃ links links' owner, m.del c.1 = some { m with links := links } ∧
      links.addTail (.seg c.1) (.head q') = some links' ∧
      Holds { m with links := links' }
        (Function.update (Function.update cells q r) q' (cells q' ++ [c])) owner ∧
      ∀ p, owner p ≠ some .loose := by
  obtain ⟨owner, hown, hloose⟩ := h.holds
  obtain ⟨links, hdel, hown'⟩ := hown.del (l := []) hcells
  have hseg : m.segs c.1 = some c.2 := hown.stored q c (by simp [hcells])
  obtain ⟨links', hadd, hown''⟩ := hown'.addTail q' c.2 (Function.update_self _ _ _) hseg
  rw [List.nil_append, Function.update_of_ne hq.symm] at hown''
  exact ⟨links, links', _, hdel, hadd, hown'', not_loose_update hloose (by simp)⟩

/-- Allocating a segment and putting it at the end of a queue. -/
theorem append (h : Stores m cells) (q : Queue) (seg : IkcpSeg) :
    ∃ links links' owner,
      (m.segmentNew seg).1.initNode m.brk = some { (m.segmentNew seg).1 with links := links } ∧
      links.addTail (.seg m.brk) (.head q) = some links' ∧
      Holds { (m.segmentNew seg).1 with links := links' }
        (Function.update cells q (cells q ++ [(m.brk, seg)])) owner ∧
      ∀ p, owner p ≠ some .loose := by
  obtain ⟨owner, hown, hloose⟩ := h.holds
  have hnew := hown.segmentNew seg
  obtain ⟨links, hinit, hown'⟩ := hnew.initNode (Function.update_self _ _ _)
  obtain ⟨links', hadd, hown''⟩ := hown'.addTail q seg
    (Function.update_self _ _ _) (Function.update_self _ _ _)
  exact ⟨links, links', _, hinit, hadd, hown'', not_loose_update hloose (by simp)⟩

end Stores

/-! ## Acknowledgements -/

@[simp] theorem nodeAhead_nil : q.nodeAhead [] = .head q := rfl

@[simp] theorem nodeAhead_cons : q.nodeAhead (c :: r) = .seg c.1 := rfl

theorem Stores.update_self (h : Stores m cells) (hcells : cells q = cs) :
    Stores m (Function.update cells q cs) := by
  rwa [← hcells, Function.update_eq_self]

theorem parseUnaLoop_spec (una : UInt32) {fuel : ℕ} (h : Stores m cells)
    (hcells : cells .sndBuf = cs) (hfuel : cs.length < fuel) :
    ∃ m' cs', parseUnaLoop una fuel (Queue.nodeAhead .sndBuf cs) m = some m' ∧
      Stores m' (Function.update cells .sndBuf cs') ∧ m'.ctl = m.ctl ∧
      cs'.map Prod.snd =
        (cs.map Prod.snd).dropWhile fun seg ↦ itimediff una seg.sn > 0 := by
  induction cs generalizing m cells fuel with
  | nil =>
    obtain ⟨fuel, rfl⟩ := Nat.exists_eq_succ_of_ne_zero hfuel.ne_bot
    exact ⟨m, [], if_pos rfl, h.update_self hcells, rfl, rfl⟩
  | cons c rest ih =>
    obtain ⟨p, seg⟩ := c
    obtain ⟨fuel, rfl⟩ := Nat.exists_eq_succ_of_ne_zero hfuel.ne_bot
    have hentry := h.entry_member (l := []) hcells
    have hnext := (h.linked_member (l := []) hcells).1
    simp only [nodeAhead_cons, parseUnaLoop, reduceCtorEq, if_false, hentry, hnext,
      Option.bind_eq_bind, Option.bind_some]
    by_cases hdrop : itimediff una seg.sn > 0
    · obtain ⟨m₁, hdropped, h₁, hctl⟩ := h.dropSent (l := []) hcells
      obtain ⟨m', cs', hloop, h', hctl', hmap⟩ := ih h₁ (Function.update_self _ _ _)
        (Nat.lt_of_succ_lt_succ hfuel)
      rw [Function.update_idem] at h'
      refine ⟨m', cs', ?_, h', hctl'.trans hctl, ?_⟩
      · rw [if_pos hdrop, hdropped, Option.bind_some, hloop]
      · rw [hmap, List.map_cons, List.dropWhile_cons_of_pos (by simpa using hdrop)]
    · refine ⟨m, (p, seg) :: rest, if_neg hdrop, h.update_self hcells, rfl, ?_⟩
      rw [List.map_cons, List.dropWhile_cons_of_neg (by simpa using hdrop)]

theorem Represents.ikcpParseUna (h : Represents m kcp) (una : UInt32) :
    ∃ m', m.ikcpParseUna una = some m' ∧ Represents m' (KcpEcho.ikcpParseUna kcp una) := by
  obtain ⟨cells, hs, rfl⟩ := h
  obtain ⟨m', cs', hloop, h', hctl, hmap⟩ :=
    parseUnaLoop_spec una hs rfl (hs.length_lt_fuel .sndBuf)
  refine ⟨m', ?_, _, h', ?_⟩
  · rw [LinkedCb.ikcpParseUna, hs.next_head, Option.bind_eq_bind, Option.bind_some, hloop]
  · rw [block_sndBuf hctl, hmap]
    rfl

theorem parseAckLoop_spec (sn : UInt32) {fuel : ℕ} (h : Stores m cells)
    (hcells : cells .sndBuf = l ++ cs) (hfuel : cs.length < fuel) :
    ∃ m' cs', parseAckLoop sn fuel (Queue.nodeAhead .sndBuf cs) m = some m' ∧
      Stores m' (Function.update cells .sndBuf (l ++ cs')) ∧ m'.ctl = m.ctl ∧
      cs'.map Prod.snd = removeAcked sn (cs.map Prod.snd) := by
  induction cs generalizing l fuel with
  | nil =>
    obtain ⟨fuel, rfl⟩ := Nat.exists_eq_succ_of_ne_zero hfuel.ne_bot
    exact ⟨m, [], if_pos rfl, h.update_self hcells, rfl, rfl⟩
  | cons c rest ih =>
    obtain ⟨p, seg⟩ := c
    obtain ⟨fuel, rfl⟩ := Nat.exists_eq_succ_of_ne_zero hfuel.ne_bot
    have hentry := h.entry_member hcells
    have hnext := (h.linked_member hcells).1
    simp only [nodeAhead_cons, parseAckLoop, reduceCtorEq, if_false, hentry, hnext,
      Option.bind_eq_bind, Option.bind_some, List.map_cons, removeAcked]
    by_cases hacked : sn = seg.sn
    · obtain ⟨m', hdropped, h', hctl⟩ := h.dropSent hcells
      exact ⟨m', rest, by rw [if_pos hacked, hdropped], h', hctl, by rw [if_pos hacked]⟩
    by_cases hstop : itimediff sn seg.sn < 0
    · refine ⟨m, (p, seg) :: rest, by rw [if_neg hacked, if_pos hstop], h.update_self hcells, rfl, ?_⟩
      rw [if_neg hacked, if_pos hstop, List.map_cons]
    · have hcells' : cells .sndBuf = (l ++ [(p, seg)]) ++ rest := by
        rw [hcells, List.append_assoc, List.singleton_append]
      obtain ⟨m', cs', hloop, h', hctl, hmap⟩ := ih hcells' (Nat.lt_of_succ_lt_succ hfuel)
      rw [List.append_assoc, List.singleton_append] at h'
      refine ⟨m', (p, seg) :: cs', by rw [if_neg hacked, if_neg hstop, hloop], h', hctl, ?_⟩
      rw [if_neg hacked, if_neg hstop, List.map_cons, hmap]

theorem Represents.ikcpParseAck (h : Represents m kcp) (sn : UInt32) :
    ∃ m', m.ikcpParseAck sn = some m' ∧ Represents m' (KcpEcho.ikcpParseAck kcp sn) := by
  obtain ⟨cells, hs, rfl⟩ := h
  rw [LinkedCb.ikcpParseAck, KcpEcho.ikcpParseAck]
  by_cases hout : itimediff sn m.ctl.sndUna < 0 ∨ itimediff sn m.ctl.sndNxt ≥ 0
  · exact ⟨m, if_pos hout, cells, hs, (if_pos hout).symm⟩
  · obtain ⟨m', cs', hloop, h', hctl, hmap⟩ :=
      parseAckLoop_spec sn hs (List.nil_append _).symm (hs.length_lt_fuel .sndBuf)
    refine ⟨m', ?_, _, h', ?_⟩
    · rw [if_neg hout, hs.next_head, Option.bind_eq_bind, Option.bind_some, hloop]
    · rw [block_sndBuf hctl, List.nil_append, hmap]
      exact (if_neg hout).symm

theorem parseFastackLoop_spec (sn : UInt32) {fuel : ℕ} (h : Stores m cells)
    (hcells : cells .sndBuf = l ++ cs) (hfuel : cs.length < fuel) :
    ∃ m' cs', parseFastackLoop sn fuel (Queue.nodeAhead .sndBuf cs) m = some m' ∧
      Stores m' (Function.update cells .sndBuf (l ++ cs')) ∧ m'.ctl = m.ctl ∧
      cs'.map Prod.snd = bumpFastack sn (cs.map Prod.snd) := by
  induction cs generalizing l fuel m cells with
  | nil =>
    obtain ⟨fuel, rfl⟩ := Nat.exists_eq_succ_of_ne_zero hfuel.ne_bot
    exact ⟨m, [], if_pos rfl, h.update_self hcells, rfl, rfl⟩
  | cons c rest ih =>
    obtain ⟨p, seg⟩ := c
    obtain ⟨fuel, rfl⟩ := Nat.exists_eq_succ_of_ne_zero hfuel.ne_bot
    have hentry := h.entry_member hcells
    have hnext := (h.linked_member hcells).1
    simp only [nodeAhead_cons, parseFastackLoop, reduceCtorEq, if_false, hentry, hnext,
      Option.bind_eq_bind, Option.bind_some, List.map_cons, bumpFastack]
    by_cases hstop : itimediff sn seg.sn < 0
    · refine ⟨m, (p, seg) :: rest, by rw [if_pos hstop], h.update_self hcells, rfl, ?_⟩
      rw [if_pos hstop, List.map_cons]
    by_cases hother : sn ≠ seg.sn
    · obtain ⟨segs, hset, h₁⟩ := h.setSeg hcells { seg with fastack := seg.fastack + 1 }
      obtain ⟨m', cs', hloop, h', hctl, hmap⟩ := ih (l := l ++ [(p, _)]) h₁
        (by rw [Function.update_self, List.append_assoc, List.singleton_append])
        (Nat.lt_of_succ_lt_succ hfuel)
      rw [Function.update_idem, List.append_assoc, List.singleton_append] at h'
      refine ⟨m', _ :: cs', ?_, h', hctl, ?_⟩
      · rw [if_neg hstop, if_pos hother, hset, Option.bind_some, hloop]
      · rw [if_neg hstop, if_pos hother, List.map_cons, hmap]
    · have hcells' : cells .sndBuf = (l ++ [(p, seg)]) ++ rest := by
        rw [hcells, List.append_assoc, List.singleton_append]
      obtain ⟨m', cs', hloop, h', hctl, hmap⟩ := ih h hcells' (Nat.lt_of_succ_lt_succ hfuel)
      rw [List.append_assoc, List.singleton_append] at h'
      refine ⟨m', (p, seg) :: cs', by rw [if_neg hstop, if_neg hother, hloop], h', hctl, ?_⟩
      rw [if_neg hstop, if_neg hother, List.map_cons, hmap]

theorem Represents.ikcpParseFastack (h : Represents m kcp) (sn ts : UInt32) :
    ∃ m', m.ikcpParseFastack sn ts = some m' ∧
      Represents m' (KcpEcho.ikcpParseFastack kcp sn ts) := by
  obtain ⟨cells, hs, rfl⟩ := h
  rw [LinkedCb.ikcpParseFastack, KcpEcho.ikcpParseFastack]
  by_cases hout : itimediff sn m.ctl.sndUna < 0 ∨ itimediff sn m.ctl.sndNxt ≥ 0
  · exact ⟨m, if_pos hout, cells, hs, (if_pos hout).symm⟩
  · obtain ⟨m', cs', hloop, h', hctl, hmap⟩ :=
      parseFastackLoop_spec sn hs (List.nil_append _).symm (hs.length_lt_fuel .sndBuf)
    refine ⟨m', ?_, _, h', ?_⟩
    · rw [if_neg hout, hs.next_head, Option.bind_eq_bind, Option.bind_some, hloop]
    · rw [block_sndBuf hctl, List.nil_append, hmap]
      exact (if_neg hout).symm

theorem Represents.ikcpShrinkBuf (h : Represents m kcp) :
    ∃ m', m.ikcpShrinkBuf = some m' ∧ Represents m' (KcpEcho.ikcpShrinkBuf kcp) := by
  obtain ⟨cells, hs, rfl⟩ := h
  have hbuf : (m.block cells).sndBuf = (cells .sndBuf).map Prod.snd := rfl
  rw [LinkedCb.ikcpShrinkBuf, KcpEcho.ikcpShrinkBuf, hs.next_head, Option.bind_eq_bind,
    Option.bind_some, hbuf]
  cases hcells : cells .sndBuf with
  | nil =>
    refine ⟨_, if_neg (by simp), cells, hs.withCtl _, ?_⟩
    simp [block, Ikcpcb.withQueues, hcells]
  | cons c rest =>
    have hentry := hs.entry_member (l := []) hcells
    rw [if_pos (by simp), nodeAhead_cons, hentry]
    refine ⟨_, rfl, cells, hs.withCtl { m.ctl with sndUna := c.2.sn }, ?_⟩
    simp [block, Ikcpcb.withQueues, hcells]

/-! ## Taking bytes out -/

/-- The loop "move available data". In the list model the block keeps the old `rcv_buf` until the
loop stops. -/
theorem moveAvailableLoop_spec {fuel : ℕ} (h : Stores m cells) (hcells : cells .rcvBuf = cs)
    (hblock : m.block cells = { kcp with rcvBuf := cs.map Prod.snd }) (hfuel : cs.length < fuel) :
    ∃ m', moveAvailableLoop fuel m = some m' ∧
      Represents m' (KcpEcho.moveAvailableLoop (cs.map Prod.snd) kcp) := by
  induction cs generalizing m cells fuel kcp with
  | nil =>
    obtain ⟨fuel, rfl⟩ := Nat.exists_eq_succ_of_ne_zero hfuel.ne_bot
    refine ⟨m, ?_, cells, h, hblock⟩
    simp [moveAvailableLoop, h.isEmpty, hcells]
  | cons c rest ih =>
    obtain ⟨p, seg⟩ := c
    obtain ⟨fuel, rfl⟩ := Nat.exists_eq_succ_of_ne_zero hfuel.ne_bot
    have hempty : m.isEmpty .rcvBuf = some false := by rw [h.isEmpty, hcells]; rfl
    have hnxt : kcp.rcvNxt = m.ctl.rcvNxt := (congrArg Ikcpcb.rcvNxt hblock).symm
    have hque : kcp.rcvQueue = (cells .rcvQueue).map Prod.snd :=
      (congrArg Ikcpcb.rcvQueue hblock).symm
    have hwnd : kcp.rcvWnd = m.ctl.rcvWnd := (congrArg Ikcpcb.rcvWnd hblock).symm
    have hcond : seg.sn = kcp.rcvNxt ∧ kcp.nrcvQue < kcp.rcvWnd.toNat ↔
        seg.sn = m.ctl.rcvNxt ∧ m.nrcvQue < m.ctl.rcvWnd := by
      rw [UInt32.lt_iff_toNat_lt, h.nrcvQue, Ikcpcb.nrcvQue, hque, hwnd, hnxt, List.length_map]
    simp only [moveAvailableLoop, hempty, h.front hcells, Option.bind_eq_bind, Option.bind_some,
      Bool.false_eq_true, if_false, List.map_cons, KcpEcho.moveAvailableLoop, hcond]
    by_cases hmove : seg.sn = m.ctl.rcvNxt ∧ m.nrcvQue < m.ctl.rcvWnd
    · obtain ⟨links, links', owner, hdel, hadd, hown, hloose⟩ :=
        h.transfer .rcvQueue (by simp) hcells
      have h₁ : Stores { m with
            links := links', nrcvBuf := m.nrcvBuf - 1, nrcvQue := m.nrcvQue + 1
            ctl := { m.ctl with rcvNxt := m.ctl.rcvNxt + 1 } }
          (Function.update (Function.update cells .rcvBuf rest) .rcvQueue
            (cells .rcvQueue ++ [(p, seg)])) := by
        refine ⟨⟨owner, hown.congr rfl rfl rfl, hloose⟩, fun q ↦ ?_, ?_⟩
        · cases q with
          | sndQueue => exact h.counted .sndQueue
          | sndBuf => exact h.counted .sndBuf
          | rcvBuf => exact h.count_pred (l := []) hcells
          | rcvQueue => exact h.count_succ .rcvQueue
        · have hbelow := UInt32.lt_iff_toNat_lt.mp hmove.2
          have hbound := m.ctl.rcvWnd.toNat_lt
          rw [h.nrcvQue] at hbelow
          rw [Function.update_self, List.length_append, List.length_singleton]
          omega
      have hblock₁ : LinkedCb.block { m with
            links := links', nrcvBuf := m.nrcvBuf - 1, nrcvQue := m.nrcvQue + 1
            ctl := { m.ctl with rcvNxt := m.ctl.rcvNxt + 1 } }
          (Function.update (Function.update cells .rcvBuf rest) .rcvQueue
            (cells .rcvQueue ++ [(p, seg)])) =
          { m.block cells with
            rcvBuf := rest.map Prod.snd
            rcvQueue := (m.block cells).rcvQueue ++ [seg]
            rcvNxt := (m.block cells).rcvNxt + 1 } := by
        simp [block, Ikcpcb.withQueues]
      rw [hblock] at hblock₁
      obtain ⟨m', hloop, hrep⟩ :=
        @ih _ _ { kcp with rcvQueue := kcp.rcvQueue ++ [seg], rcvNxt := kcp.rcvNxt + 1 } fuel h₁ rfl
          hblock₁ (Nat.lt_of_succ_lt_succ hfuel)
      refine ⟨m', ?_, by rwa [if_pos hmove]⟩
      rw [if_pos hmove, hdel]
      simp [LinkedCb.addTail, hadd, hloop]
    · exact ⟨m, if_neg hmove, cells, h, by rw [if_neg hmove]; exact hblock⟩

theorem Represents.moveAvailable (h : Represents m kcp) :
    ∃ m', moveAvailableLoop m.fuel m = some m' ∧ Represents m' (KcpEcho.moveAvailable kcp) := by
  obtain ⟨cells, hs, rfl⟩ := h
  exact moveAvailableLoop_spec hs rfl rfl (hs.length_lt_fuel .rcvBuf)

theorem peekLoop_spec {fuel : ℕ} (h : Stores m cells) (hcells : cells .rcvQueue = l ++ cs)
    (hfuel : cs.length < fuel) :
    peekLoop m fuel (Queue.nodeAhead .rcvQueue cs) = some (peekLength (cs.map Prod.snd)) := by
  induction cs generalizing l fuel with
  | nil =>
    obtain ⟨fuel, rfl⟩ := Nat.exists_eq_succ_of_ne_zero hfuel.ne_bot
    exact if_pos rfl
  | cons c rest ih =>
    obtain ⟨p, seg⟩ := c
    obtain ⟨fuel, rfl⟩ := Nat.exists_eq_succ_of_ne_zero hfuel.ne_bot
    have hentry := h.entry_member hcells
    have hnext := (h.linked_member hcells).1
    have hrest := ih (l := l ++ [(p, seg)])
      (by rw [hcells, List.append_assoc, List.singleton_append]) (Nat.lt_of_succ_lt_succ hfuel)
    simp only [nodeAhead_cons, peekLoop, reduceCtorEq, if_false, hentry, hnext, hrest,
      Option.bind_eq_bind, Option.bind_some, List.map_cons, peekLength]
    split_ifs <;> rfl

theorem Stores.ikcpPeeksize (h : Stores m cells) :
    m.ikcpPeeksize = some (KcpEcho.ikcpPeeksize (m.block cells)) := by
  have hque : (m.block cells).rcvQueue = (cells .rcvQueue).map Prod.snd := rfl
  rw [KcpEcho.ikcpPeeksize, hque]
  cases hcells : cells .rcvQueue with
  | nil => simp [LinkedCb.ikcpPeeksize, h.isEmpty, hcells]
  | cons c rest =>
    obtain ⟨p, seg⟩ := c
    have hpeek := peekLoop_spec h (l := []) hcells
      (hcells ▸ h.length_lt_fuel .rcvQueue)
    have hcount : m.nrcvQue < seg.frg + 1 ↔ (m.block cells).nrcvQue < (seg.frg + 1).toNat := by
      rw [UInt32.lt_iff_toNat_lt, h.nrcvQue, Ikcpcb.nrcvQue, hque, List.length_map]
    have hempty : m.isEmpty .rcvQueue = some false := by rw [h.isEmpty, hcells]; rfl
    simp only [LinkedCb.ikcpPeeksize, hempty, h.front hcells, h.next_head, hcells, hpeek,
      Option.bind_eq_bind, Option.bind_some, Bool.false_eq_true, if_false, hcount, List.map_cons]
    split_ifs <;> rfl

/-- Copying the head message out and leaving it there. -/
theorem mergeFragment_peek {fuel : ℕ} (h : Stores m cells) (hcells : cells .rcvQueue = l ++ cs)
    (hfuel : cs.length < fuel) :
    mergeFragment true fuel (Queue.nodeAhead .rcvQueue cs) m =
      some (m, (KcpEcho.mergeFragment (cs.map Prod.snd)).1) := by
  induction cs generalizing l fuel with
  | nil =>
    obtain ⟨fuel, rfl⟩ := Nat.exists_eq_succ_of_ne_zero hfuel.ne_bot
    exact if_pos rfl
  | cons c rest ih =>
    obtain ⟨p, seg⟩ := c
    obtain ⟨fuel, rfl⟩ := Nat.exists_eq_succ_of_ne_zero hfuel.ne_bot
    have hentry := h.entry_member hcells
    have hnext := (h.linked_member hcells).1
    have hrest := ih (l := l ++ [(p, seg)])
      (by rw [hcells, List.append_assoc, List.singleton_append]) (Nat.lt_of_succ_lt_succ hfuel)
    simp only [nodeAhead_cons, mergeFragment, reduceCtorEq, if_false, if_true, hentry, hnext,
      hrest, Option.bind_eq_bind, Option.bind_some, List.map_cons, KcpEcho.mergeFragment]
    split_ifs <;> rfl

/-- Copying the head message out and freeing it. -/
theorem mergeFragment_take {fuel : ℕ} (h : Stores m cells) (hcells : cells .rcvQueue = cs)
    (hfuel : cs.length < fuel) :
    ∃ m' cs', mergeFragment false fuel (Queue.nodeAhead .rcvQueue cs) m =
        some (m', (KcpEcho.mergeFragment (cs.map Prod.snd)).1) ∧
      Stores m' (Function.update cells .rcvQueue cs') ∧ m'.ctl = m.ctl ∧
      cs'.map Prod.snd = (KcpEcho.mergeFragment (cs.map Prod.snd)).2 := by
  induction cs generalizing m cells fuel with
  | nil =>
    obtain ⟨fuel, rfl⟩ := Nat.exists_eq_succ_of_ne_zero hfuel.ne_bot
    exact ⟨m, [], if_pos rfl, h.update_self hcells, rfl, rfl⟩
  | cons c rest ih =>
    obtain ⟨p, seg⟩ := c
    obtain ⟨fuel, rfl⟩ := Nat.exists_eq_succ_of_ne_zero hfuel.ne_bot
    have hentry := h.entry_member (l := []) hcells
    have hnext := (h.linked_member (l := []) hcells).1
    obtain ⟨links, segs, links', owner, hdel, hdelete, hown, hloose⟩ := h.unlink (l := []) hcells
    have h₁ : Stores { m with segs := segs, links := links', nrcvQue := m.nrcvQue - 1 }
        (Function.update cells .rcvQueue rest) := by
      refine h.of_update (hown.congr rfl rfl rfl) hloose (h.count_pred (l := []) hcells) ?_ ?_
      · intro q' hq'
        cases q' <;> first | rfl | exact absurd rfl hq'
      · intro _
        have hsmall := h.small
        rw [hcells, List.length_cons] at hsmall
        omega
    simp only [nodeAhead_cons, mergeFragment, reduceCtorEq, if_false, Bool.false_eq_true, hentry,
      hnext, hdel, hdelete, Option.bind_eq_bind, Option.bind_some, List.map_cons,
      KcpEcho.mergeFragment]
    by_cases hlast : seg.frg = 0
    · rw [if_pos hlast, if_pos hlast]
      exact ⟨_, rest, rfl, h₁, rfl, rfl⟩
    · obtain ⟨m', cs', hloop, h', hctl, hmap⟩ := ih h₁ (Function.update_self _ _ _)
        (Nat.lt_of_succ_lt_succ hfuel)
      rw [Function.update_idem] at h'
      rw [if_neg hlast, if_neg hlast, hloop]
      exact ⟨m', cs', rfl, h', hctl, hmap⟩

/-- The loop "merge fragment" of `ikcp_recv`, peeking or not. -/
theorem Stores.mergeFragment (h : Stores m cells) (ispeek : Prop) [Decidable ispeek] :
    ∃ m', LinkedCb.mergeFragment (decide ispeek) m.fuel
        (Queue.nodeAhead .rcvQueue (cells .rcvQueue)) m =
        some (m', (KcpEcho.mergeFragment (m.block cells).rcvQueue).1) ∧
      Represents m' (if ispeek then m.block cells else
        { m.block cells with
          rcvQueue := (KcpEcho.mergeFragment (m.block cells).rcvQueue).2 }) := by
  by_cases hpeek : ispeek
  · rw [decide_eq_true hpeek, if_pos hpeek]
    exact ⟨m, mergeFragment_peek h (List.nil_append _).symm (h.length_lt_fuel .rcvQueue), cells, h,
      rfl⟩
  · rw [decide_eq_false hpeek, if_neg hpeek]
    obtain ⟨m', cs', hloop, h', hctl, hmap⟩ :=
      mergeFragment_take h rfl (h.length_lt_fuel .rcvQueue)
    refine ⟨m', hloop, _, h', ?_⟩
    rw [block_rcvQueue hctl, hmap]
    rfl

/-- The comparison of `nrcv_que` with the receive window. -/
theorem Represents.room (h : Represents m kcp) :
    m.nrcvQue < m.ctl.rcvWnd ↔ kcp.nrcvQue < kcp.rcvWnd.toNat := by
  obtain ⟨cells, hs, rfl⟩ := h
  have hque : (m.block cells).nrcvQue = (cells .rcvQueue).length := List.length_map _
  rw [UInt32.lt_iff_toNat_lt, hs.nrcvQue, hque]
  rfl

theorem Represents.withCtl (h : Represents m kcp) {ctl kcp' : Ikcpcb}
    (heq : ∀ f, m.ctl.withQueues f = kcp → ctl.withQueues f = kcp') :
    Represents { m with ctl := ctl } kcp' := by
  obtain ⟨cells, hs, hblock⟩ := h
  exact ⟨cells, hs.withCtl ctl, heq _ hblock⟩

theorem Represents.ikcpRecv (h : Represents m kcp) (len : ℤ) :
    ∃ m', m.ikcpRecv len = some (m', (KcpEcho.ikcpRecv kcp len).2) ∧
      Represents m' (KcpEcho.ikcpRecv kcp len).1 := by
  obtain ⟨cells, hs, rfl⟩ := h
  have hempty : m.isEmpty .rcvQueue = some (decide ((m.block cells).rcvQueue = [])) := by
    rw [hs.isEmpty]
    cases hcells : cells .rcvQueue <;> simp [block, Ikcpcb.withQueues, hcells]
  rw [LinkedCb.ikcpRecv, KcpEcho.ikcpRecv, hempty, Option.bind_eq_bind, Option.bind_some]
  by_cases hnil : (m.block cells).rcvQueue = []
  · rw [if_pos (decide_eq_true hnil), if_pos hnil]
    exact ⟨m, rfl, cells, hs, rfl⟩
  rw [if_neg (by simpa using hnil), if_neg hnil, hs.ikcpPeeksize, Option.bind_eq_bind,
    Option.bind_some]
  dsimp only
  by_cases hpeek : KcpEcho.ikcpPeeksize (m.block cells) < 0
  · rw [if_pos hpeek, if_pos hpeek]
    exact ⟨m, rfl, cells, hs, rfl⟩
  rw [if_neg hpeek, if_neg hpeek]
  by_cases hbig : KcpEcho.ikcpPeeksize (m.block cells) > |len|
  · rw [if_pos hbig, if_pos hbig]
    exact ⟨m, rfl, cells, hs, rfl⟩
  rw [if_neg hbig, if_neg hbig, hs.next_head, Option.bind_eq_bind, Option.bind_some]
  obtain ⟨m₁, hmerge, h₁⟩ := hs.mergeFragment (len < 0)
  rw [hmerge, Option.bind_eq_bind, Option.bind_some]
  dsimp only
  -- the assertion holds
  have hlen : ((KcpEcho.mergeFragment (m.block cells).rcvQueue).1.length : ℤ) =
      KcpEcho.ikcpPeeksize (m.block cells) := by
    rw [ikcpPeeksize_eq_peekLength (not_lt.mp hpeek), length_mergeFragment]
  rw [if_neg (not_not.mpr hlen)]
  obtain ⟨m₂, hmove, h₂⟩ := h₁.moveAvailable
  rw [hmove, Option.bind_eq_bind, Option.bind_some]
  have hrecover : decide (m.nrcvQue ≥ m.ctl.rcvWnd) =
      decide ((m.block cells).nrcvQue ≥ (m.block cells).rcvWnd.toNat) := by
    have hroom : m.nrcvQue < m.ctl.rcvWnd ↔ _ := Represents.room ⟨cells, hs, rfl⟩
    rw [decide_eq_decide, ge_iff_le, ge_iff_le, ← not_lt, ← UInt32.not_lt, hroom]
  have hroom₂ := h₂.room
  generalize KcpEcho.moveAvailable _ = kcp₂ at h₂ hroom₂ ⊢
  rw [hrecover]
  by_cases htell : kcp₂.nrcvQue < kcp₂.rcvWnd.toNat ∧
      decide ((m.block cells).nrcvQue ≥ (m.block cells).rcvWnd.toNat) = true
  · rw [if_pos htell, if_pos (htell.imp_left hroom₂.mpr)]
    refine ⟨_, rfl, h₂.withCtl fun f heq ↦ ?_⟩
    rw [← heq]
    rfl
  · rw [if_neg htell, if_neg fun h ↦ htell (h.imp_left hroom₂.mp)]
    exact ⟨_, rfl, h₂⟩

/-! ## Putting bytes in -/

theorem nodeBehind_concat (l : List (Ptr × IkcpSeg)) : q.nodeBehind (l ++ [c]) = .seg c.1 := by
  rw [Queue.nodeBehind, nodes_append, nodes_cons, nodes_nil, List.getLast?_concat]
  rfl

/-- A longer copy takes the place of the last segment. -/
theorem Stores.replaceLast (h : Stores m cells) (hcells : cells q = l ++ [c]) (seg : IkcpSeg) :
    ∃ links₁ links₂ links₃ links₄ segs,
      (m.segmentNew seg).1.links.addTail (.seg m.brk) (.head q) = some links₁ ∧
      LinkedCb.del { (m.segmentNew seg).1 with links := links₁ } c.1 =
        some { (m.segmentNew seg).1 with links := links₂ } ∧
      LinkedCb.initNode { (m.segmentNew seg).1 with links := links₂ } c.1 =
        some { (m.segmentNew seg).1 with links := links₃ } ∧
      LinkedCb.segmentDelete { (m.segmentNew seg).1 with links := links₃ } c.1 =
        some { (m.segmentNew seg).1 with segs := segs, links := links₄ } ∧
      Stores { (m.segmentNew seg).1 with segs := segs, links := links₄ }
        (Function.update cells q (l ++ [(m.brk, seg)])) := by
  obtain ⟨owner, hown, hloose⟩ := h.holds
  have hnew := hown.segmentNew seg
  obtain ⟨links₁, hadd, h₁⟩ := hnew.addTail q seg
    (Function.update_self _ _ _) (Function.update_self _ _ _)
  obtain ⟨links₂, hdel, h₂⟩ := h₁.del (q := q) (l := l) (c := c) (r := [(m.brk, seg)])
    (by rw [Function.update_self, hcells, List.append_assoc, List.singleton_append])
  obtain ⟨links₃, hinit, h₃⟩ := h₂.initNode (Function.update_self _ _ _)
  obtain ⟨segs, links₄, hdelete, h₄⟩ := h₃.segmentDelete (Function.update_self _ _ _)
  refine ⟨links₁, links₂, links₃, links₄, segs, hadd, hdel, hinit, hdelete, ?_⟩
  rw [Function.update_idem] at h₄
  refine h.of_update h₄ ?_ ?_ (fun q' _ ↦ by cases q' <;> rfl) fun hq ↦ ?_
  · refine not_loose_update (fun p ↦ ?_) (by simp)
    exact not_loose_update hloose (by simp) p
  · change m.count q = _
    rw [h.counted, hcells, List.length_append, List.length_append]
    rfl
  · have hsmall := h.small
    rw [← hq, hcells, List.length_append] at hsmall
    rwa [List.length_append]

theorem Represents.extendPrevious (h : Represents m kcp) (buffer : List UInt8) :
    ∃ m', m.extendPrevious buffer = some (m', (KcpEcho.extendPrevious kcp buffer).2) ∧
      Represents m' (KcpEcho.extendPrevious kcp buffer).1 := by
  obtain ⟨cells, hs, rfl⟩ := h
  have hque : (m.block cells).sndQueue = (cells .sndQueue).map Prod.snd := rfl
  rcases List.eq_nil_or_concat (cells .sndQueue) with hcells | ⟨l, c, hcells⟩
  · have hempty : m.isEmpty .sndQueue = some true := by rw [hs.isEmpty, hcells]; rfl
    have hlast : (m.block cells).sndQueue.getLast? = none := by rw [hque, hcells]; rfl
    rw [LinkedCb.extendPrevious, KcpEcho.extendPrevious, hempty, hlast]
    exact ⟨m, rfl, cells, hs, rfl⟩
  · obtain ⟨o, old⟩ := c
    rw [List.concat_eq_append] at hcells
    have hempty : m.isEmpty .sndQueue = some false := by
      rw [hs.isEmpty, hcells]
      simp
    have hlast : (m.block cells).sndQueue.getLast? = some old := by
      rw [hque, hcells, List.map_append, List.map_singleton, List.getLast?_concat]
    have hprev : m.links.prev (.head .sndQueue) = some (.seg o) := by
      rw [hs.prev_head, hcells, nodeBehind_concat]
    have hentry : m.entry (.seg o) = some (o, old) := hs.entry_member hcells
    rw [KcpEcho.extendPrevious, hlast]
    simp only [LinkedCb.extendPrevious, hempty, hprev, hentry, Option.bind_eq_bind,
      Option.bind_some, Bool.false_eq_true, if_false]
    by_cases hroom : old.len < m.ctl.mss.toNat
    · have hroom' : old.len < (m.block cells).mss.toNat := hroom
      rw [if_pos hroom, if_pos hroom']
      obtain ⟨links₁, links₂, links₃, links₄, segs, hadd, hdel, hinit, hdelete, h'⟩ :=
        hs.replaceLast hcells { data := old.data ++ buffer.take (if buffer.length <
          m.ctl.mss.toNat - old.len then buffer.length else m.ctl.mss.toNat - old.len), frg := 0 }
      refine ⟨_, ?_, _, h', ?_⟩
      · simp only [segmentNew] at hadd hdel hinit hdelete
        simp only [segmentNew, LinkedCb.addTail, hadd, Option.map_some, Option.bind_some, hdel,
          hinit, hdelete]
        rfl
      · refine (block_sndQueue (m := m) rfl _).trans ?_
        rw [hque, hcells, List.map_append, List.map_append, List.map_singleton,
          List.map_singleton, List.dropLast_concat]
        rfl
    · have hroom' : ¬old.len < (m.block cells).mss.toNat := hroom
      rw [if_neg hroom, if_neg hroom']
      exact ⟨m, rfl, cells, hs, rfl⟩

/-- One round of the loop "fragment". -/
theorem Stores.pushNew (h : Stores m cells) (seg : IkcpSeg) :
    ∃ links links',
      (m.segmentNew seg).1.initNode m.brk = some { (m.segmentNew seg).1 with links := links } ∧
      links.addTail (.seg m.brk) (.head .sndQueue) = some links' ∧
      Represents { (m.segmentNew seg).1 with links := links', nsndQue := m.nsndQue + 1 }
        { m.block cells with sndQueue := (m.block cells).sndQueue ++ [seg] } := by
  obtain ⟨links, links', owner, hinit, hadd, hown, hloose⟩ := h.append .sndQueue seg
  refine ⟨links, links', hinit, hadd, _, h.of_update (q := .sndQueue) (hown.congr rfl rfl rfl) hloose
    (h.count_succ .sndQueue) ?_ (by simp), ?_⟩
  · intro q' hq'
    cases q' <;> first | rfl | exact absurd rfl hq'
  · refine (block_sndQueue (m := m) rfl _).trans ?_
    rw [List.map_append]
    rfl

/-- The loop "fragment" appends its segments. -/
theorem Represents.fragment (mss : ℕ) (stream : ℤ) (n : ℕ) (buffer : List UInt8)
    (h : Represents m kcp) :
    ∃ m', LinkedCb.fragment mss stream n buffer m = some m' ∧
      Represents m' { kcp with
        sndQueue := kcp.sndQueue ++ KcpEcho.fragment mss stream n buffer } := by
  induction n generalizing m kcp buffer with
  | zero =>
    refine ⟨m, rfl, ?_⟩
    rw [KcpEcho.fragment, List.append_nil]
    exact h
  | succ n ih =>
    obtain ⟨cells, hs, rfl⟩ := h
    obtain ⟨links, links', hinit, hadd, hrep⟩ := hs.pushNew
      { data := buffer.take mss, frg := if stream = 0 then UInt32.ofNat n else 0 }
    obtain ⟨m', hloop, hrep'⟩ := ih (buffer.drop mss) hrep
    refine ⟨m', ?_, ?_⟩
    · simp only [segmentNew] at hinit hadd hloop
      simp only [LinkedCb.fragment, segmentNew, LinkedCb.addTail, hinit, hadd, Option.map_some,
        Option.bind_eq_bind, Option.bind_some]
      exact hloop
    · simpa only [KcpEcho.fragment, List.append_assoc, List.singleton_append] using hrep'

theorem Represents.ctl_eq (h : Represents m kcp) {α : Type} {g : Ikcpcb → α}
    (hg : ∀ (kcp : Ikcpcb) (f : Queue → List IkcpSeg), g (kcp.withQueues f) = g kcp) :
    g m.ctl = g kcp := by
  obtain ⟨cells, hs, rfl⟩ := h
  exact (hg m.ctl _).symm

theorem Represents.ikcpSend (h : Represents m kcp) (buffer : List UInt8) :
    ∃ m', m.ikcpSend buffer = some (m', (KcpEcho.ikcpSend kcp buffer).2) ∧
      Represents m' (KcpEcho.ikcpSend kcp buffer).1 := by
  have hfirst : ∃ m₁, (if m.ctl.stream ≠ 0 then m.extendPrevious buffer else some (m, buffer, 0)) =
      some (m₁, (if kcp.stream ≠ 0 then KcpEcho.extendPrevious kcp buffer
        else (kcp, buffer, 0)).2) ∧
      Represents m₁ (if kcp.stream ≠ 0 then KcpEcho.extendPrevious kcp buffer
        else (kcp, buffer, 0)).1 := by
    rw [h.ctl_eq (g := Ikcpcb.stream) fun _ _ ↦ rfl]
    split_ifs
    · exact h.extendPrevious buffer
    · exact ⟨m, rfl, h⟩
  obtain ⟨m₁, hextend, h₁⟩ := hfirst
  rw [LinkedCb.ikcpSend, KcpEcho.ikcpSend, hextend]
  generalize (if kcp.stream ≠ 0 then KcpEcho.extendPrevious kcp buffer else (kcp, buffer, 0)) = e
    at h₁ ⊢
  obtain ⟨kcp₁, buffer₁, sent⟩ := e
  have hstream : m₁.ctl.stream = kcp₁.stream := h₁.ctl_eq (g := Ikcpcb.stream) fun _ _ ↦ rfl
  have hmss : m₁.ctl.mss = kcp₁.mss := h₁.ctl_eq (g := Ikcpcb.mss) fun _ _ ↦ rfl
  rw [Option.bind_eq_bind, Option.bind_some]
  dsimp only
  rw [hstream, hmss]
  by_cases hdone : kcp₁.stream ≠ 0 ∧ buffer₁.length = 0
  · rw [if_pos hdone, if_pos hdone]
    exact ⟨m₁, rfl, h₁⟩
  rw [if_neg hdone, if_neg hdone]
  generalize (if buffer₁.length ≤ kcp₁.mss.toNat then 1 else
    (buffer₁.length + kcp₁.mss.toNat - 1) / kcp₁.mss.toNat) = count
  by_cases hmany : count ≥ ikcpWndRcv.toNat
  · rw [if_pos hmany, if_pos hmany]
    split_ifs
    · exact ⟨m₁, rfl, h₁⟩
    · exact ⟨m₁, rfl, h₁⟩
  · rw [if_neg hmany, if_neg hmany]
    obtain ⟨m', hloop, h'⟩ := h₁.fragment kcp₁.mss.toNat kcp₁.stream
      (if count = 0 then 1 else count) buffer₁
    refine ⟨m', ?_, h'⟩
    rw [hloop]
    rfl

/-! ## Data -/

/-- The backward scan finds the number, or the place for it. -/
theorem Holds.insertPosition {owner : Ptr → Option Place} (h : Holds m cells owner)
    (newseg : IkcpSeg) {fuel : ℕ} (hcells : cells .rcvBuf = l ++ r) (hfuel : l.length < fuel) :
    (insertBackward newseg (l.map Prod.snd).reverse = none ∧
      ∃ pos, m.insertPosition newseg.sn fuel (Queue.nodeBehind .rcvBuf l) = some (pos, true)) ∨
    ∃ l₁ l₂, l = l₁ ++ l₂ ∧ insertBackward newseg (l.map Prod.snd).reverse =
        some (l₁.map Prod.snd ++ newseg :: l₂.map Prod.snd).reverse ∧
      m.insertPosition newseg.sn fuel (Queue.nodeBehind .rcvBuf l) =
        some (Queue.nodeBehind .rcvBuf l₁, false) := by
  induction l using List.reverseRecOn generalizing r fuel with
  | nil =>
    obtain ⟨fuel, rfl⟩ := Nat.exists_eq_succ_of_ne_zero hfuel.ne_bot
    exact .inr ⟨[], [], rfl, rfl, if_pos rfl⟩
  | append_singleton rest c ih =>
    obtain ⟨p, seg⟩ := c
    obtain ⟨fuel, rfl⟩ := Nat.exists_eq_succ_of_ne_zero hfuel.ne_bot
    rw [List.append_assoc, List.singleton_append] at hcells
    have hentry := h.entry_member hcells
    have hprev := (h.linked_member hcells).2
    rw [List.length_append, List.length_singleton] at hfuel
    simp only [nodeBehind_concat, LinkedCb.insertPosition, reduceCtorEq, if_false, hentry, hprev,
      Option.bind_eq_bind, Option.bind_some, List.map_append, List.map_cons, List.map_nil,
      List.reverse_append, List.reverse_cons, List.reverse_nil, List.nil_append,
      List.singleton_append, insertBackward]
    by_cases hsame : seg.sn = newseg.sn
    · exact .inl ⟨if_pos hsame, .seg p, if_pos hsame⟩
    rw [if_neg hsame, if_neg hsame]
    by_cases hbelow : itimediff newseg.sn seg.sn > 0
    · refine .inr ⟨rest ++ [(p, seg)], [], (List.append_nil _).symm, ?_, ?_⟩
      · rw [if_pos hbelow]
        simp
      · rw [if_pos hbelow, nodeBehind_concat]
    rw [if_neg hbelow, if_neg hbelow]
    rcases ih hcells (Nat.lt_of_succ_lt_succ hfuel) with ⟨hnone, hpos⟩ | ⟨l₁, l₂, hsplit, hsome, hpos⟩
    · exact .inl ⟨by rw [hnone]; rfl, hpos⟩
    · refine .inr ⟨l₁, l₂ ++ [(p, seg)], by rw [hsplit, List.append_assoc], ?_, hpos⟩
      rw [hsome]
      simp

/-- Linking a fresh segment in between two parts of `rcv_buf`. -/
theorem Stores.insertNew (h : Stores m cells) (newseg : IkcpSeg) (hcells : cells .rcvBuf = l ++ r) :
    ∃ m', (m.segmentNew newseg).1.insertNew m.brk (Queue.nodeBehind .rcvBuf l) = some m' ∧
      Stores m' (Function.update cells .rcvBuf (l ++ (m.brk, newseg) :: r)) ∧ m'.ctl = m.ctl := by
  obtain ⟨owner, hown, hloose⟩ := h.holds
  have hnew := hown.segmentNew newseg
  obtain ⟨links, hinit, h₁⟩ := hnew.initNode (Function.update_self _ _ _)
  obtain ⟨links', hadd, h₂⟩ := h₁.add hcells newseg (Function.update_self _ _ _)
    (Function.update_self _ _ _) List.getLast?_cons
  refine ⟨{ (m.segmentNew newseg).1 with links := links', nrcvBuf := m.nrcvBuf + 1 }, ?_, ?_, rfl⟩
  · rw [LinkedCb.insertNew, hinit, Option.bind_eq_bind, Option.bind_some]
    exact congrArg (fun o : Option LinkedCb ↦ o.bind fun m ↦
      some { m with nrcvBuf := m.nrcvBuf + 1 }) hadd
  · refine h.of_update (h₂.congr rfl rfl rfl) (not_loose_update hloose (by simp)) ?_ ?_ (by simp)
    · have hcount := h.count_succ .rcvBuf (c := (m.brk, newseg))
      rw [hcells] at hcount
      refine hcount.trans (congrArg UInt32.ofNat ?_)
      simp only [List.length_append, List.length_cons, List.length_nil]
      omega
    · intro q' hq'
      cases q' <;> first | rfl | exact absurd rfl hq'

/-- **`ikcp_parse_data`** of a fresh segment: it is linked into its place, or freed. -/
theorem Represents.ikcpParseData (h : Represents m kcp) (newseg : IkcpSeg) :
    ∃ m', (m.segmentNew newseg).1.ikcpParseData m.brk = some m' ∧
      Represents m' (KcpEcho.ikcpParseData kcp newseg) := by
  obtain ⟨cells, hs, rfl⟩ := h
  obtain ⟨owner, hown, hloose⟩ := hs.holds
  have hnew := hown.segmentNew newseg
  have hat : Function.update owner m.brk (some Place.loose) m.brk = some .loose :=
    Function.update_self _ _ _
  have hseg : (m.segmentNew newseg).1.segs m.brk = some newseg := Function.update_self _ _ _
  have hentry : (m.segmentNew newseg).1.entry (.seg m.brk) = some (m.brk, newseg) := by
    rw [LinkedCb.entry, hseg, Option.map_some]
  -- freeing it again leaves the block as it was
  obtain ⟨segs, links, hdelete, hdeleted⟩ := hnew.segmentDelete hat
  have hkept : Stores { (m.segmentNew newseg).1 with segs := segs, links := links } cells :=
    ⟨⟨_, hdeleted, not_loose_update hloose (by simp)⟩, hs.counted, hs.small⟩
  rw [LinkedCb.ikcpParseData, KcpEcho.ikcpParseData, hentry, Option.bind_eq_bind, Option.bind_some]
  dsimp only
  by_cases hout : itimediff newseg.sn (m.ctl.rcvNxt + m.ctl.rcvWnd) ≥ 0 ∨
      itimediff newseg.sn m.ctl.rcvNxt < 0
  · exact ⟨_, (if_pos hout).trans hdelete, cells, hkept, (if_pos hout).symm⟩
  have hscan := hnew.insertPosition newseg
    (List.append_nil _).symm (hnew.length_lt_fuel .rcvBuf)
  rw [show (m.block cells).rcvBuf = (cells .rcvBuf).map Prod.snd from rfl]
  rcases hscan with ⟨hnone, pos, hpos⟩ | ⟨l₁, l₂, hsplit, hsome, hpos⟩
  · obtain ⟨m', hmove, hrep⟩ := Represents.moveAvailable ⟨cells, hkept, rfl⟩
    refine ⟨m', (if_neg hout).trans ?_, ?_⟩
    · rw [hnew.prev_head, Option.bind_eq_bind, Option.bind_some, hpos, Option.bind_eq_bind,
        Option.bind_some]
      dsimp only
      rw [if_pos rfl, hdelete, Option.bind_eq_bind, Option.bind_some]
      exact hmove
    · rw [hnone]
      exact (if_neg hout).symm ▸ hrep
  · obtain ⟨m₁, hinsert, h₁, hctl⟩ := hs.insertNew newseg hsplit
    obtain ⟨m', hmove, hrep⟩ := Represents.moveAvailable ⟨_, h₁, block_rcvBuf hctl _⟩
    refine ⟨m', (if_neg hout).trans ?_, ?_⟩
    · rw [hnew.prev_head, Option.bind_eq_bind, Option.bind_some, hpos, Option.bind_eq_bind,
        Option.bind_some]
      dsimp only
      rw [if_neg (by simp), hinsert, Option.bind_eq_bind, Option.bind_some]
      exact hmove
    · rw [hsome]
      dsimp only
      rw [List.reverse_reverse]
      rw [List.map_append, List.map_cons] at hrep
      exact (if_neg hout).symm ▸ hrep

end LinkedCb

end KcpEcho
