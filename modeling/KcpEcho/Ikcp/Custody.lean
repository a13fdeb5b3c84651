import KcpEcho.Ikcp.Linked
import Mathlib.Data.List.Nodup
import Mathlib.Data.List.Perm.Subperm

/-!
# Every segment is in one queue

`Holds` says how a control block in memory stores its four queues: each is a ring, the segments in
memory are exactly those in a queue and those the running function holds in its hands, and none is
in two places. The primitive operations move one segment from one place to another.

`Represents` is the relation to the list model: nothing is held in hands, the counters are right,
and the queues read as the lists.
-/

namespace KcpEcho

open RingList

/-- Where a segment in memory is. -/
inductive Place
  | queue (q : Queue)
  | loose
  deriving DecidableEq

/-- The contents of the queues: addresses and segments. -/
abbrev Cells := Queue → List (Ptr × IkcpSeg)

/-- The nodes of some cells. -/
def nodes (cells : List (Ptr × IkcpSeg)) : List Node := cells.map fun c ↦ .seg c.1

@[simp] theorem nodes_nil : nodes [] = [] := rfl

@[simp] theorem nodes_cons (c : Ptr × IkcpSeg) (cells : List (Ptr × IkcpSeg)) :
    nodes (c :: cells) = .seg c.1 :: nodes cells := rfl

@[simp] theorem nodes_append (l r : List (Ptr × IkcpSeg)) :
    nodes (l ++ r) = nodes l ++ nodes r := List.map_append

@[simp] theorem mem_nodes {p : Ptr} {cells : List (Ptr × IkcpSeg)} :
    Node.seg p ∈ nodes cells ↔ p ∈ cells.map Prod.fst := by
  simp [nodes]

@[simp] theorem head_not_mem_nodes {q : Queue} {cells : List (Ptr × IkcpSeg)} :
    Node.head q ∉ nodes cells := by
  simp [nodes]

/-- The node a forward walk comes to with `r` before it: a segment, or the head again. -/
def Queue.nodeAhead (q : Queue) (r : List (Ptr × IkcpSeg)) : Node := (nodes r).head?.getD (.head q)

/-- The node a backward walk comes to with `l` before it. -/
def Queue.nodeBehind (q : Queue) (l : List (Ptr × IkcpSeg)) : Node := (nodes l).getLast?.getD (.head q)

namespace LinkedCb

/-- The queues in memory hold `cells`, and each segment is where `owner` says. -/
structure Holds (m : LinkedCb) (cells : Cells) (owner : Ptr → Option Place) : Prop where
  ring : ∀ q, m.links.Ring (.head q) (nodes (cells q))
  stored : ∀ q, ∀ c ∈ cells q, m.segs c.1 = some c.2
  owned : ∀ q p, p ∈ (cells q).map Prod.fst ↔ owner p = some (.queue q)
  segs : ∀ p, (m.segs p).isSome ↔ owner p ≠ none
  live : ∀ p, m.links.Live (.seg p) ↔ owner p ≠ none
  fresh : ∀ p, owner p ≠ none → p < m.brk

namespace Holds

variable {m m' : LinkedCb} {cells : Cells} {owner : Ptr → Option Place} {q q' : Queue} {p : Ptr}
  {seg : IkcpSeg} {c : Ptr × IkcpSeg} {l r : List (Ptr × IkcpSeg)}

/-- Scalars and counters do not matter. -/
theorem congr (h : Holds m cells owner) (hlinks : m'.links = m.links) (hsegs : m'.segs = m.segs)
    (hbrk : m'.brk = m.brk) : Holds m' cells owner where
  ring := hlinks ▸ h.ring
  stored := hsegs ▸ h.stored
  owned := h.owned
  segs := hsegs ▸ h.segs
  live := hlinks ▸ h.live
  fresh := hbrk ▸ h.fresh

theorem owner_of_mem (h : Holds m cells owner) (hc : c ∈ cells q) :
    owner c.1 = some (.queue q) := (h.owned q c.1).mp (List.mem_map_of_mem hc)

/-- The rings of two queues are apart. -/
theorem away (h : Holds m cells owner) (hne : q' ≠ q) :
    ∀ a ∈ Node.head q' :: nodes (cells q'), a ∉ Node.head q :: nodes (cells q) := by
  intro a ha hin
  rcases List.mem_cons.mp ha with rfl | ha
  · rcases List.mem_cons.mp hin with heq | hin
    · exact hne (Node.head.inj heq)
    · exact head_not_mem_nodes hin
  · cases a with
    | null => simp [nodes] at ha
    | head _ => exact head_not_mem_nodes ha
    | seg p =>
      have hin' : p ∈ (cells q).map Prod.fst := by simpa using hin
      have howner := (h.owned q' p).mp (mem_nodes.mp ha)
      rw [(h.owned q p).mp hin'] at howner
      exact hne (Place.queue.inj (Option.some.inj howner)).symm

/-- A segment that is in no queue is in none of the rings. -/
theorem not_mem_ring (h : Holds m cells owner) (hp : ∀ q, owner p ≠ some (.queue q)) (q : Queue) :
    Node.seg p ∉ Node.head q :: nodes (cells q) := by
  intro hin
  have hin' : p ∈ (cells q).map Prod.fst := by simpa using hin
  exact hp q ((h.owned q p).mp hin')

theorem nodup (h : Holds m cells owner) (q : Queue) : ((cells q).map Prod.fst).Nodup := by
  have hring := (List.nodup_cons.mp (h.ring q).nodup).2
  refine List.Nodup.of_map Node.seg ?_
  rwa [List.map_map]

theorem not_mem_rest (h : Holds m cells owner) (hcells : cells q = l ++ c :: r) :
    c.1 ∉ (l ++ r).map Prod.fst := by
  have hnodup := h.nodup q
  rw [hcells, List.map_append, List.map_cons] at hnodup
  rw [List.map_append]
  exact (List.nodup_cons.mp (List.perm_middle.nodup_iff.mp hnodup)).1

theorem length_lt_fuel (h : Holds m cells owner) (q : Queue) : (cells q).length < m.fuel := by
  have hnodup := h.nodup q
  have hsub : (cells q).map Prod.fst ⊆ List.range m.brk := by
    intro p hp
    have howner := (h.owned q p).mp hp
    exact List.mem_range.mpr (h.fresh p (by rw [howner]; simp))
  have hle := (hnodup.subperm hsub).length_le
  rw [List.length_map, List.length_range] at hle
  exact Nat.lt_succ_of_le hle

/-! ### The primitive operations -/

/-- A change to one segment that is in no queue, and stays in none. -/
theorem change_loose (h : Holds m cells owner) (hp : ∀ q, owner p ≠ some (.queue q))
    {o : Option Place} (ho : ∀ q, o ≠ some (.queue q))
    (hlinks : ∀ a ≠ .seg p, m'.links.next a = m.links.next a ∧ m'.links.prev a = m.links.prev a)
    (hlive : m'.links.Live (.seg p) ↔ o ≠ none)
    (hsegs : ∀ p' ≠ p, m'.segs p' = m.segs p') (hseg : (m'.segs p).isSome ↔ o ≠ none)
    (hbrk : m.brk ≤ m'.brk) (hfresh : o ≠ none → p < m'.brk) :
    Holds m' cells (Function.update owner p o) := by
  refine ⟨fun q ↦ (h.ring q).congr fun a ha ↦ ?_, fun q c hc ↦ ?_, fun q p' ↦ ?_, fun p' ↦ ?_,
    fun p' ↦ ?_, fun p' hp' ↦ ?_⟩
  · exact hlinks a fun heq ↦ h.not_mem_ring hp q (heq ▸ ha)
  · have hne : c.1 ≠ p := fun heq ↦ hp q (heq ▸ h.owner_of_mem hc)
    exact (hsegs c.1 hne).trans (h.stored q c hc)
  · rw [h.owned, Function.update_apply]
    split_ifs with heq
    · rw [heq]
      exact iff_of_false (hp q) (ho q)
    · rfl
  · rw [Function.update_apply]
    split_ifs with heq
    · rw [heq, hseg]
    · rw [hsegs p' heq, h.segs]
  · rw [Function.update_apply]
    split_ifs with heq
    · rw [heq, hlive]
    · have hsame := hlinks (.seg p') fun hnode ↦ heq (Node.seg.inj hnode)
      rw [← h.live, Heap.Live, Heap.Live, hsame.1, hsame.2]
  · rw [Function.update_apply] at hp'
    split_ifs at hp' with heq
    · exact heq ▸ hfresh hp'
    · exact (h.fresh p' hp').trans_le hbrk

theorem owner_brk (h : Holds m cells owner) : owner m.brk = none := by
  by_contra hne
  exact absurd (h.fresh m.brk hne) (lt_irrefl _)

/-- A new segment is in the hands of the function. -/
theorem segmentNew (h : Holds m cells owner) (seg : IkcpSeg) :
    Holds (m.segmentNew seg).1 cells (Function.update owner m.brk (some .loose)) := by
  refine h.change_loose (by simp [h.owner_brk]) (by simp) ?_ ?_ ?_ ?_ (Nat.le_succ _)
    fun _ ↦ Nat.lt_succ_self _
  · exact fun a ha ↦ ⟨Function.update_of_ne ha _ _, Function.update_of_ne ha _ _⟩
  · simp [LinkedCb.segmentNew, Heap.Live, Heap.alloc]
  · exact fun p' hp' ↦ Function.update_of_ne hp' _ _
  · simp [LinkedCb.segmentNew]

/-- Freeing a segment the function holds. -/
theorem segmentDelete (h : Holds m cells owner) (hp : owner p = some .loose) :
    ∃ segs links, m.segmentDelete p = some { m with segs := segs, links := links } ∧
      Holds { m with segs := segs, links := links } cells (Function.update owner p none) := by
  obtain ⟨seg, hseg⟩ := Option.isSome_iff_exists.mp ((h.segs p).mpr (by simp [hp]))
  refine ⟨Function.update m.segs p none, m.links.free (.seg p), ?_, ?_⟩
  · rw [LinkedCb.segmentDelete, hseg, Option.map_some]
  · refine h.change_loose (by simp [hp]) (by simp) ?_ ?_ ?_ ?_ le_rfl (by simp)
    · exact fun a ha ↦ ⟨Function.update_of_ne ha _ _, Function.update_of_ne ha _ _⟩
    · simp [Heap.Live, Heap.free]
    · exact fun p' hp' ↦ Function.update_of_ne hp' _ _
    · simp

/-- Preparing the node of a segment the function holds. -/
theorem initNode (h : Holds m cells owner) (hp : owner p = some .loose) :
    ∃ links, m.initNode p = some { m with links := links } ∧
      Holds { m with links := links } cells owner := by
  have hlive : m.links.Live (.seg p) := (h.live p).mpr (by simp [hp])
  obtain ⟨links, hinit, -, honly⟩ := Heap.Ring.init hlive
  refine ⟨links, by rw [LinkedCb.initNode, hinit, Option.map_some], ?_⟩
  have hsame : Function.update owner p (owner p) = owner := Function.update_eq_self p owner
  rw [← hsame]
  refine h.change_loose (by simp [hp]) (by simp [hp]) ?_ ?_ (fun _ _ ↦ rfl) (h.segs p) le_rfl
    (h.fresh p)
  · intro a ha
    have haway : a ∉ [Node.seg p] := by simpa using ha
    exact ⟨honly.next a haway, honly.prev a haway⟩
  · exact (honly.live _).trans (h.live p)

/-- A change to the ring of one queue, by which segment `p` goes in or out. -/
theorem relocate (h : Holds m cells owner) {links : Heap Node} {cs : List (Ptr × IkcpSeg)}
    {o : Place} (honly : Heap.Only (.seg p :: .head q :: nodes (cells q)) m.links links)
    (hring : links.Ring (.head q) (nodes cs)) (hstored : ∀ c ∈ cs, m.segs c.1 = some c.2)
    (hin : owner p ≠ none) (hp : ∀ q', q' ≠ q → owner p ≠ some (.queue q'))
    (ho : ∀ q', q' ≠ q → o ≠ .queue q')
    (howned : ∀ p', p' ∈ cs.map Prod.fst ↔ Function.update owner p (some o) p' = some (.queue q)) :
    Holds { m with links := links } (Function.update cells q cs)
      (Function.update owner p (some o)) := by
  have hnone : ∀ p', Function.update owner p (some o) p' ≠ none ↔ owner p' ≠ none := by
    intro p'
    rw [Function.update_apply]
    split_ifs with heq
    · simp [heq, hin]
    · rfl
  refine ⟨fun q' ↦ ?_, fun q' c hc ↦ ?_, fun q' p' ↦ ?_, fun p' ↦ (h.segs p').trans (hnone p').symm,
    fun p' ↦ ((honly.live _).trans (h.live p')).trans (hnone p').symm,
    fun p' hp' ↦ h.fresh p' ((hnone p').mp hp')⟩
  · by_cases hq : q' = q
    · rw [hq, Function.update_self]
      exact hring
    · rw [Function.update_of_ne hq]
      refine (h.ring q').frame honly fun a ha ↦ ?_
      rw [List.mem_cons, not_or]
      refine ⟨fun heq ↦ ?_, h.away hq a ha⟩
      have hmem : p ∈ (cells q').map Prod.fst := by simpa [heq] using ha
      exact hp q' hq ((h.owned q' p).mp hmem)
  · by_cases hq : q' = q
    · subst hq
      rw [Function.update_self] at hc
      exact hstored c hc
    · rw [Function.update_of_ne hq] at hc
      exact h.stored q' c hc
  · by_cases hq : q' = q
    · subst hq
      rw [Function.update_self]
      exact howned p'
    · rw [Function.update_of_ne hq, h.owned, Function.update_apply]
      split_ifs with heq
      · rw [heq]
        exact iff_of_false (hp q' hq) fun heq' ↦ ho q' hq (Option.some.inj heq')
      · rfl

theorem del (h : Holds m cells owner) (hcells : cells q = l ++ c :: r) :
    ∃ links, m.del c.1 = some { m with links := links } ∧
      Holds { m with links := links } (Function.update cells q (l ++ r))
        (Function.update owner c.1 (some .loose)) := by
  have hring : m.links.Ring (.head q) (nodes l ++ .seg c.1 :: nodes r) := by
    rw [← nodes_cons, ← nodes_append, ← hcells]
    exact h.ring q
  obtain ⟨links, hdel, hring', honly⟩ := hring.del .null
  have hc : owner c.1 = some (.queue q) := h.owner_of_mem (by simp [hcells])
  have hnot := h.not_mem_rest hcells
  refine ⟨links, by rw [LinkedCb.del, hdel, Option.map_some], h.relocate ?_ ?_ ?_ ?_ ?_ ?_ ?_⟩
  · refine honly.mono ?_
    rw [hcells, nodes_append, nodes_cons]
    exact List.subset_cons_self _ _
  · rwa [nodes_append]
  · intro c' hc'
    refine h.stored q c' ?_
    rw [hcells]
    rcases List.mem_append.mp hc' with hl | hr
    · exact List.mem_append_left _ hl
    · exact List.mem_append_right _ (List.mem_cons_of_mem _ hr)
  · simp [hc]
  · intro q' hq'
    simp [hc, hq'.symm]
  · simp
  · intro p'
    rw [Function.update_apply]
    split_ifs with heq
    · rw [heq]
      exact iff_of_false hnot (by simp)
    · rw [← h.owned, hcells]
      simp [heq]

/-- Putting a segment the function holds into a queue. -/
theorem put (h : Holds m cells owner) (hcells : cells q = l ++ r) (hp : owner p = some .loose)
    (hseg : m.segs p = some seg) {links : Heap Node}
    (hring : links.Ring (.head q) (nodes l ++ .seg p :: nodes r))
    (honly : Heap.Only (.seg p :: .head q :: (nodes l ++ nodes r)) m.links links) :
    Holds { m with links := links } (Function.update cells q (l ++ (p, seg) :: r))
      (Function.update owner p (some (.queue q))) := by
  refine h.relocate ?_ ?_ ?_ (by simp [hp]) (by simp [hp]) ?_ ?_
  · rwa [hcells, nodes_append]
  · rwa [nodes_append, nodes_cons]
  · intro c hc
    have hmem : c = (p, seg) ∨ c ∈ cells q := by
      rw [hcells]
      simpa [or_left_comm] using hc
    rcases hmem with rfl | hmem
    · exact hseg
    · exact h.stored q c hmem
  · intro q' hq' heq
    exact hq' (Place.queue.inj heq).symm
  · intro p'
    rw [Function.update_apply]
    split_ifs with heq
    · simp [heq]
    · rw [← h.owned, hcells]
      simp [heq]

theorem add (h : Holds m cells owner) (hcells : cells q = l ++ r) (seg : IkcpSeg)
    (hp : owner p = some .loose) (hseg : m.segs p = some seg) {pos : Node}
    (hpos : (Node.head q :: nodes l).getLast? = some pos) :
    ∃ links, m.add p pos = some { m with links := links } ∧
      Holds { m with links := links } (Function.update cells q (l ++ (p, seg) :: r))
        (Function.update owner p (some (.queue q))) := by
  have hring : m.links.Ring (.head q) (nodes l ++ nodes r) := by
    rw [← nodes_append, ← hcells]
    exact h.ring q
  have hnot : Node.seg p ∉ Node.head q :: (nodes l ++ nodes r) := by
    rw [← nodes_append, ← hcells]
    exact h.not_mem_ring (by simp [hp]) q
  obtain ⟨links, hadd, hring', honly⟩ := hring.add hpos hnot ((h.live p).mpr (by simp [hp]))
  exact ⟨links, by rw [LinkedCb.add, hadd, Option.map_some], h.put hcells hp hseg hring' honly⟩

theorem addTail (h : Holds m cells owner) (q : Queue) (seg : IkcpSeg)
    (hp : owner p = some .loose) (hseg : m.segs p = some seg) :
    ∃ links, m.links.addTail (.seg p) (.head q) = some links ∧
      Holds { m with links := links } (Function.update cells q (cells q ++ [(p, seg)]))
        (Function.update owner p (some (.queue q))) := by
  have hnot := h.not_mem_ring (p := p) (by simp [hp]) q
  obtain ⟨links, hadd, hring', honly⟩ :=
    (h.ring q).addTail hnot ((h.live p).mpr (by simp [hp]))
  refine ⟨links, hadd, h.put (List.append_nil _).symm hp hseg hring' ?_⟩
  rwa [nodes_nil, List.append_nil]

/-- Writing the fields of a segment. -/
theorem setSeg (h : Holds m cells owner) (hcells : cells q = l ++ c :: r) (seg : IkcpSeg) :
    ∃ segs, m.setSeg c.1 seg = some { m with segs := segs } ∧
      Holds { m with segs := segs } (Function.update cells q (l ++ (c.1, seg) :: r)) owner := by
  have hc : owner c.1 = some (.queue q) := h.owner_of_mem (by simp [hcells])
  have hseg : m.segs c.1 = some c.2 := h.stored q c (by simp [hcells])
  have hnot := h.not_mem_rest hcells
  have hfst : ∀ q', (Function.update cells q (l ++ (c.1, seg) :: r) q').map Prod.fst
      = (cells q').map Prod.fst := by
    intro q'
    by_cases hq : q' = q
    · rw [hq, Function.update_self, hcells]
      simp
    · rw [Function.update_of_ne hq]
  have hother : ∀ p' ≠ c.1, Function.update m.segs c.1 (some seg) p' = m.segs p' :=
    fun p' hp' ↦ Function.update_of_ne hp' _ _
  refine ⟨Function.update m.segs c.1 (some seg), by rw [LinkedCb.setSeg, hseg, Option.map_some],
    fun q' ↦ ?_, fun q' c' hc' ↦ ?_, fun q' p' ↦ ?_, fun p' ↦ ?_, h.live, h.fresh⟩
  · have hnodes : ∀ cs : List (Ptr × IkcpSeg), nodes cs = (cs.map Prod.fst).map Node.seg :=
      fun cs ↦ by rw [List.map_map]; rfl
    rw [hnodes, hfst, ← hnodes]
    exact h.ring q'
  · by_cases hq : q' = q
    · subst hq
      rw [Function.update_self] at hc'
      have hmem : c' = (c.1, seg) ∨ c' ∈ l ++ r := by simpa [or_left_comm] using hc'
      rcases hmem with rfl | hmem
      · exact Function.update_self _ _ _
      · refine (hother c'.1 fun heq ↦ hnot (heq ▸ List.mem_map_of_mem hmem)).trans
          (h.stored q' c' ?_)
        rw [hcells]
        rcases List.mem_append.mp hmem with hl | hr
        · exact List.mem_append_left _ hl
        · exact List.mem_append_right _ (List.mem_cons_of_mem _ hr)
    · rw [Function.update_of_ne hq] at hc'
      refine (hother c'.1 fun heq ↦ hq ?_).trans (h.stored q' c' hc')
      have howner := h.owner_of_mem hc'
      rw [heq, hc] at howner
      exact (Place.queue.inj (Option.some.inj howner)).symm
  · rw [hfst]
    exact h.owned q' p'
  · rw [← h.segs p']
    dsimp only
    by_cases hp' : p' = c.1
    · rw [hp', Function.update_self, hseg]
      rfl
    · rw [hother p' hp']

/-! ### Looking at a queue -/

theorem isEmpty (h : Holds m cells owner) : m.isEmpty q = some (cells q).isEmpty := by
  rw [LinkedCb.isEmpty, (h.ring q).isEmpty_eq]
  cases cells q <;> rfl

theorem next_head (h : Holds m cells owner) :
    m.links.next (.head q) = some (q.nodeAhead (cells q)) := (h.ring q).linked_head.1

theorem prev_head (h : Holds m cells owner) :
    m.links.prev (.head q) = some (q.nodeBehind (cells q)) :=
  ((h.ring q).linked_last List.getLast?_cons).2

theorem linked_member (h : Holds m cells owner) (hcells : cells q = l ++ c :: r) :
    m.links.next (.seg c.1) = some (q.nodeAhead r) ∧ m.links.prev (.seg c.1) = some (q.nodeBehind l) := by
  have hring : m.links.Ring (.head q) (nodes l ++ .seg c.1 :: nodes r) := by
    rw [← nodes_cons, ← nodes_append, ← hcells]
    exact h.ring q
  obtain ⟨hbefore, hbehind⟩ := hring.linked_member  List.getLast?_cons
  exact ⟨hbehind.1, hbefore.2⟩

theorem entry_member (h : Holds m cells owner) (hcells : cells q = l ++ c :: r) :
    m.entry (.seg c.1) = some c := by
  have hseg : m.segs c.1 = some c.2 := h.stored q c (by simp [hcells])
  rw [entry, hseg, Option.map_some]

theorem front (h : Holds m cells owner) (hcells : cells q = c :: r) : m.front q = some c := by
  have hentry := h.entry_member (l := []) hcells
  rw [LinkedCb.front, h.next_head, Option.bind_eq_bind, Option.bind_some, hcells]
  exact hentry

end Holds

end LinkedCb

end KcpEcho
