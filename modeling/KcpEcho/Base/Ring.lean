import Mathlib.Data.List.Chain
import Mathlib.Logic.Function.Basic

/-!
# Circular doubly linked lists

A heap of nodes, each with a forward and a backward link, and the operations on rings threaded
through it: insertion behind or before a node, removal, and the emptiness test. A ring is a head and
its members; the head is a node like the others and is linked to the first and to the last member,
or to itself.

The operations are sequences of single reads and writes, each of which needs its node to be in
memory: a fault is `none`. `Ring` is stated as a chain, the head standing at both ends of it, so that
an insertion or a removal is a cut and a join: the two halves of the chain keep their links, and
only those at the seam are written.
-/

namespace RingList

variable {α : Type*}

/-- The links of the nodes in memory. -/
structure Heap (α : Type*) where
  next : α → Option α
  prev : α → Option α

namespace Heap

/-- The node is in memory. -/
def Live (h : Heap α) (a : α) : Prop := (h.next a).isSome ∧ (h.prev a).isSome

/-- The two nodes are neighbours. -/
def Linked (h : Heap α) (a b : α) : Prop := h.next a = some b ∧ h.prev b = some a

/-- The ring of `head` has the members `as`, in this order. -/
structure Ring (h : Heap α) (head : α) (as : List α) : Prop where
  nodup : (head :: as).Nodup
  chain : (head :: (as ++ [head])).IsChain h.Linked

section Operations

variable [DecidableEq α]

def setNext (h : Heap α) (a b : α) : Option (Heap α) :=
  (h.next a).map fun _ ↦ { h with next := Function.update h.next a (some b) }

def setPrev (h : Heap α) (a b : α) : Option (Heap α) :=
  (h.prev a).map fun _ ↦ { h with prev := Function.update h.prev a (some b) }

/-- Bring a node into memory, with links that mean nothing yet. -/
def alloc (h : Heap α) (a null : α) : Heap α where
  next := Function.update h.next a (some null)
  prev := Function.update h.prev a (some null)

/-- Give the memory of a node back. -/
def free (h : Heap α) (a : α) : Heap α where
  next := Function.update h.next a none
  prev := Function.update h.prev a none

/-- Make a node an empty ring. -/
def init (h : Heap α) (a : α) : Option (Heap α) := do
  let h ← h.setNext a a
  h.setPrev a a

/-- Insert a node behind another one. -/
def add (h : Heap α) (node pos : α) : Option (Heap α) := do
  let h ← h.setPrev node pos
  let h ← h.setNext node (← h.next pos)
  let h ← h.setPrev (← h.next pos) node
  h.setNext pos node

/-- Insert a node before another one. -/
def addTail (h : Heap α) (node pos : α) : Option (Heap α) := do
  let h ← h.setPrev node (← h.prev pos)
  let h ← h.setNext node pos
  let h ← h.setNext (← h.prev pos) node
  h.setPrev pos node

/-- Take a node out from between its neighbours; its own links become null. -/
def del (h : Heap α) (null entry : α) : Option (Heap α) := do
  let h ← h.setPrev (← h.next entry) (← h.prev entry)
  let h ← h.setNext (← h.prev entry) (← h.next entry)
  let h ← h.setNext entry null
  h.setPrev entry null

/-- The node is its own successor. -/
def isEmpty (h : Heap α) (entry : α) : Option Bool := (h.next entry).map fun b ↦ entry = b

end Operations

/-! ## What an operation leaves alone -/

/-- `h'` differs from `h` only in the links of the nodes in `touched`. -/
structure Only (touched : List α) (h h' : Heap α) : Prop where
  next : ∀ a, a ∉ touched → h'.next a = h.next a
  prev : ∀ a, a ∉ touched → h'.prev a = h.prev a
  live : ∀ a, h'.Live a ↔ h.Live a

variable {h h' : Heap α} {a head : α} {as l r : List α}

theorem Only.mono {touched touched' : List α} (honly : Only touched h h')
    (hsub : touched ⊆ touched') : Only touched' h h' where
  next a ha := honly.next a fun hin ↦ ha (hsub hin)
  prev a ha := honly.prev a fun hin ↦ ha (hsub hin)
  live := honly.live

theorem Linked.live_left {a b c : α} (h₁ : h.Linked a b) (h₂ : h.Linked b c) : h.Live b :=
  ⟨by rw [h₂.1]; rfl, by rw [h₁.2]; rfl⟩

/-- A chain reads the forward links of all its nodes but the last, and the backward links of all
but the first. -/
theorem isChain_congr {c : List α} (hc : c.IsChain h.Linked)
    (hnext : ∀ a ∈ c.dropLast, h'.next a = h.next a) (hprev : ∀ a ∈ c.tail, h'.prev a = h.prev a) :
    c.IsChain h'.Linked := by
  induction c with
  | nil => exact .nil
  | cons a c ih =>
    cases c with
    | nil => exact .singleton a
    | cons b c =>
      rw [List.isChain_cons_cons] at hc ⊢
      have ha := hnext a (by simp)
      have hb := hprev b (by simp)
      refine ⟨⟨ha.trans hc.1.1, hb.trans hc.1.2⟩, ih hc.2 ?_ ?_⟩
      · intro x hx
        exact hnext x (by rw [List.dropLast_cons_cons]; exact List.mem_cons_of_mem _ hx)
      · intro x hx
        exact hprev x (List.mem_of_mem_tail (by simpa using hx))

namespace Ring

/-- A ring is kept if the links of its nodes are. -/
theorem congr (hr : h.Ring head as)
    (hsame : ∀ a ∈ head :: as, h'.next a = h.next a ∧ h'.prev a = h.prev a) : h'.Ring head as where
  nodup := hr.nodup
  chain := by
    have hsame' : ∀ a ∈ head :: (as ++ [head]), h'.next a = h.next a ∧ h'.prev a = h.prev a := by
      intro a ha
      refine hsame a ?_
      simp only [List.mem_cons, List.mem_append, List.not_mem_nil, or_false] at ha ⊢
      tauto
    exact isChain_congr hr.chain (fun a ha ↦ (hsame' a (List.dropLast_subset _ ha)).1)
      fun a ha ↦ (hsame' a (List.mem_of_mem_tail ha)).2

theorem frame (hr : h.Ring head as) {touched : List α} (honly : Only touched h h')
    (haway : ∀ a ∈ head :: as, a ∉ touched) : h'.Ring head as :=
  hr.congr fun a ha ↦ ⟨honly.next a (haway a ha), honly.prev a (haway a ha)⟩

/-! ## Walking a ring -/

/-- Two neighbours: the last of the head and some first members, and the next member or the head
again. -/
theorem linked (hr : h.Ring head (l ++ r)) {pos : α} (hpos : (head :: l).getLast? = some pos) :
    h.Linked pos (r.head?.getD head) := by
  obtain ⟨front, hfront⟩ := List.getLast?_eq_some_iff.mp hpos
  have hchain := hr.chain
  cases r with
  | nil =>
    rw [List.append_nil, ← List.cons_append, hfront, List.append_assoc, List.singleton_append,
      List.isChain_append_cons_cons] at hchain
    exact hchain.2.1
  | cons b r =>
    rw [List.append_assoc, ← List.cons_append, hfront, List.append_assoc, List.singleton_append,
      List.cons_append, List.isChain_append_cons_cons] at hchain
    exact hchain.2.1

theorem linked_head (hr : h.Ring head as) : h.Linked head (as.head?.getD head) :=
  hr.linked (l := []) rfl

theorem linked_last (hr : h.Ring head as) {pos : α} (hpos : (head :: as).getLast? = some pos) :
    h.Linked pos head := by
  have hr' : h.Ring head (as ++ []) := by rwa [List.append_nil]
  exact hr'.linked hpos

theorem linked_member (hr : h.Ring head (l ++ a :: r)) {pos : α}
    (hpos : (head :: l).getLast? = some pos) :
    h.Linked pos a ∧ h.Linked a (r.head?.getD head) := by
  have hr' : h.Ring head ((l ++ [a]) ++ r) := by rwa [List.append_assoc, List.singleton_append]
  refine ⟨hr.linked hpos, hr'.linked ?_⟩
  rw [← List.cons_append, List.getLast?_concat]

theorem after_mem (head : α) (l r : List α) : r.head?.getD head ∈ head :: (l ++ r) := by
  cases r with
  | nil => exact List.mem_cons_self
  | cons b r => exact List.mem_cons_of_mem _ (List.mem_append_right _ List.mem_cons_self)

theorem not_mem_rest (hr : h.Ring head (l ++ a :: r)) : a ∉ head :: (l ++ r) := by
  have hperm : (head :: (l ++ a :: r)).Perm (a :: (head :: (l ++ r))) :=
    (List.perm_middle.cons head).trans (List.Perm.swap a head _)
  exact (List.nodup_cons.mp (hperm.nodup_iff.mp hr.nodup)).1

theorem ne_neighbours (hr : h.Ring head (l ++ a :: r)) {pos : α}
    (hpos : (head :: l).getLast? = some pos) : a ≠ pos ∧ a ≠ r.head?.getD head := by
  have hnot := hr.not_mem_rest
  constructor
  · rintro rfl
    exact hnot (List.mem_append_left r (List.mem_of_getLast? hpos))
  · intro heq
    exact hnot (heq ▸ after_mem head l r)

theorem live (hr : h.Ring head as) : ∀ a ∈ head :: as, h.Live a := by
  intro a ha
  rcases List.mem_cons.mp ha with rfl | ha
  · obtain ⟨pos, hpos⟩ := Option.isSome_iff_exists.mp
      (List.getLast?_isSome.mpr (List.cons_ne_nil a as))
    exact (hr.linked_last hpos).live_left hr.linked_head
  · obtain ⟨l, r, rfl⟩ := List.append_of_mem ha
    obtain ⟨pos, hpos⟩ := Option.isSome_iff_exists.mp
      (List.getLast?_isSome.mpr (List.cons_ne_nil head l))
    obtain ⟨hbefore, hbehind⟩ := hr.linked_member hpos
    exact hbefore.live_left hbehind

theorem isEmpty_eq [DecidableEq α] (hr : h.Ring head as) : h.isEmpty head = some (as.isEmpty) := by
  rw [isEmpty, hr.linked_head.1, Option.map_some]
  cases as with
  | nil => simp
  | cons a as =>
    have hne : head ≠ a := fun heq ↦ (List.nodup_cons.mp hr.nodup).1 (by simp [heq])
    simp [hne]

/-! ## Cutting a ring -/

/-- A ring cut behind `pos`: the two halves of the chain, the head at the outer end of each. -/
structure Cut (h : Heap α) (head : α) (l r : List α) (pos after : α) (front back : List α) :
    Prop where
  left : head :: l = front ++ [pos]
  right : r ++ [head] = after :: back
  front_chain : (front ++ [pos]).IsChain h.Linked
  back_chain : (after :: back).IsChain h.Linked
  linked : h.Linked pos after
  /-- A forward link in one half starts at none of these. -/
  front_next : pos ∉ front
  back_next : pos ∉ r
  /-- A backward link in one half starts at none of these. -/
  front_prev : after ∉ l
  back_prev : after ∉ back

theorem cut (hr : h.Ring head (l ++ r)) (hpos : (head :: l).getLast? = some pos) :
    ∃ front back, Cut h head l r pos (r.head?.getD head) front back := by
  obtain ⟨front, hleft⟩ := List.getLast?_eq_some_iff.mp hpos
  obtain ⟨back, hright⟩ : ∃ back, r ++ [head] = r.head?.getD head :: back := by
    cases r with
    | nil => exact ⟨[], rfl⟩
    | cons b r => exact ⟨r ++ [head], rfl⟩
  have hchain := hr.chain
  rw [List.append_assoc, hright, ← List.cons_append, hleft, List.append_assoc,
    List.singleton_append, List.isChain_append_cons_cons] at hchain
  have hnodup : (head :: l ++ r).Nodup := hr.nodup
  obtain ⟨hl, hr', hdisjoint⟩ := List.nodup_append.mp hnodup
  have hleft' : (front ++ [pos]).Nodup := hleft ▸ hl
  have hmem : pos ∈ head :: l := by
    rw [hleft]
    simp
  have hright' : (r.head?.getD head :: back).Nodup := by
    rw [← hright, List.nodup_append]
    refine ⟨hr', by simp, fun a ha b hb ↦ ?_⟩
    rw [List.mem_singleton.mp hb]
    exact (hdisjoint head List.mem_cons_self a ha).symm
  have hafter : r.head?.getD head ∈ r ++ [head] := by
    rw [hright]
    exact List.mem_cons_self
  refine ⟨front, back, hleft, hright, hchain.1, hchain.2.2, hchain.2.1, ?_, ?_, ?_,
    (List.nodup_cons.mp hright').1⟩
  · intro hfront
    exact (List.nodup_append.mp hleft').2.2 pos hfront pos (by simp) rfl
  · intro hpos
    exact hdisjoint pos hmem pos hpos rfl
  · intro hl'
    rcases List.mem_append.mp hafter with hin | hin
    · exact hdisjoint _ (List.mem_cons_of_mem _ hl') _ hin rfl
    · rw [List.mem_singleton.mp hin] at hl'
      exact (List.nodup_cons.mp hl).1 hl'

/-- A half of the chain, in a heap that changed at the seam only. -/
theorem Cut.front_congr {after : α} {front back : List α} (hc : Cut h head l r pos after front back)
    (hnext : ∀ a ∈ front, h'.next a = h.next a) (hprev : ∀ a ∈ l, h'.prev a = h.prev a) :
    (front ++ [pos]).IsChain h'.Linked := by
  refine isChain_congr hc.front_chain (fun a ha ↦ hnext a ?_) fun a ha ↦ hprev a ?_
  · rwa [List.dropLast_concat] at ha
  · rwa [← hc.left, List.tail_cons] at ha

theorem Cut.back_congr {after : α} {front back : List α} (hc : Cut h head l r pos after front back)
    (hnext : ∀ a ∈ r, h'.next a = h.next a) (hprev : ∀ a ∈ back, h'.prev a = h.prev a) :
    (after :: back).IsChain h'.Linked := by
  refine isChain_congr hc.back_chain (fun a ha ↦ hnext a ?_) fun a ha ↦ hprev a ?_
  · rwa [← hc.right, List.dropLast_concat] at ha
  · rwa [List.tail_cons] at ha

end Ring

/-! ## The operations -/

variable [DecidableEq α]

/-- The heap with `node` linked in between `pos` and `after`. -/
def linkedIn (h : Heap α) (node pos after : α) : Heap α where
  next := Function.update (Function.update h.next node (some after)) pos (some node)
  prev := Function.update (Function.update h.prev node (some pos)) after (some node)

/-- The heap with `entry` unlinked from between `pos` and `after`. -/
def unlinked (h : Heap α) (null entry pos after : α) : Heap α where
  next := Function.update (Function.update h.next pos (some after)) entry (some null)
  prev := Function.update (Function.update h.prev after (some pos)) entry (some null)

section Writes

variable {node pos after null entry : α}

theorem add_eq (hlink : h.Linked pos after) (hlive : h.Live node) (hne : node ≠ pos) :
    h.add node pos = some (h.linkedIn node pos after) := by
  obtain ⟨n, hn⟩ := Option.isSome_iff_exists.mp hlive.1
  obtain ⟨p, hp⟩ := Option.isSome_iff_exists.mp hlive.2
  have hafter : ∃ q, Function.update h.prev node (some pos) after = some q := by
    by_cases heq : after = node
    · exact ⟨pos, by rw [heq, Function.update_self]⟩
    · exact ⟨pos, by rw [Function.update_of_ne heq, hlink.2]⟩
  obtain ⟨q, hq⟩ := hafter
  simp [add, setPrev, setNext, hp, hn, hlink.1, hq, Function.update_of_ne hne.symm, linkedIn]

theorem addTail_eq (hlink : h.Linked pos after) (hlive : h.Live node) (hne : node ≠ after) :
    h.addTail node after = some (h.linkedIn node pos after) := by
  obtain ⟨n, hn⟩ := Option.isSome_iff_exists.mp hlive.1
  obtain ⟨p, hp⟩ := Option.isSome_iff_exists.mp hlive.2
  have hpos : ∃ q, Function.update h.next node (some after) pos = some q := by
    by_cases heq : pos = node
    · exact ⟨after, by rw [heq, Function.update_self]⟩
    · exact ⟨after, by rw [Function.update_of_ne heq, hlink.1]⟩
  obtain ⟨q, hq⟩ := hpos
  simp [addTail, setPrev, setNext, hp, hn, hlink.2, hq, Function.update_of_ne hne.symm, linkedIn]

theorem del_eq (hbefore : h.Linked pos entry) (hbehind : h.Linked entry after)
    (hpos : entry ≠ pos) (hafter : entry ≠ after) (hlive : h.Live pos) (hlive' : h.Live after) :
    h.del null entry = some (h.unlinked null entry pos after) := by
  obtain ⟨n, hn⟩ := Option.isSome_iff_exists.mp hlive.1
  obtain ⟨p, hp⟩ := Option.isSome_iff_exists.mp hlive'.2
  simp [del, setPrev, setNext, hbefore.2, hbehind.1, hn, hp, Function.update_of_ne hpos,
    Function.update_of_ne hafter, unlinked]

/-- Writing to a link that is there brings no node in and takes none out. -/
theorem isSome_update {f : α → Option α} {a : α} (ha : (f a).isSome) (b x : α) :
    (Function.update f a (some b) x).isSome ↔ (f x).isSome := by
  by_cases hx : x = a
  · simp [hx, ha]
  · rw [Function.update_of_ne hx]

theorem only_linkedIn (hnode : h.Live node) (hpos : (h.next pos).isSome)
    (hafter : (h.prev after).isSome) :
    Only [node, pos, after] h (h.linkedIn node pos after) where
  next a ha := by
    simp only [List.mem_cons, not_or] at ha
    exact (Function.update_of_ne ha.2.1 _ _).trans (Function.update_of_ne ha.1 _ _)
  prev a ha := by
    simp only [List.mem_cons, not_or] at ha
    exact (Function.update_of_ne ha.2.2.1 _ _).trans (Function.update_of_ne ha.1 _ _)
  live a := and_congr
    ((isSome_update ((isSome_update hnode.1 _ _).mpr hpos) _ _).trans (isSome_update hnode.1 _ _))
    ((isSome_update ((isSome_update hnode.2 _ _).mpr hafter) _ _).trans (isSome_update hnode.2 _ _))

theorem only_unlinked (hentry : h.Live entry) (hpos : (h.next pos).isSome)
    (hafter : (h.prev after).isSome) :
    Only [entry, pos, after] h (h.unlinked null entry pos after) where
  next a ha := by
    simp only [List.mem_cons, not_or] at ha
    exact (Function.update_of_ne ha.1 _ _).trans (Function.update_of_ne ha.2.1 _ _)
  prev a ha := by
    simp only [List.mem_cons, not_or] at ha
    exact (Function.update_of_ne ha.1 _ _).trans (Function.update_of_ne ha.2.2.1 _ _)
  live a := and_congr
    ((isSome_update ((isSome_update hpos _ _).mpr hentry.1) _ _).trans (isSome_update hpos _ _))
    ((isSome_update ((isSome_update hafter _ _).mpr hentry.2) _ _).trans (isSome_update hafter _ _))

end Writes

namespace Ring

variable {node pos null entry : α}

/-- **Insertion.** Cut the ring behind `pos` and join the halves by the new node. -/
theorem linkedIn (hr : h.Ring head (l ++ r)) (hpos : (head :: l).getLast? = some pos)
    (hnode : node ∉ head :: (l ++ r)) :
    (h.linkedIn node pos (r.head?.getD head)).Ring head (l ++ node :: r) := by
  obtain ⟨front, back, hc⟩ := hr.cut hpos
  have hmem : ∀ a, a ∈ front ++ [pos] ∨ a ∈ r ++ [head] → a ≠ node := by
    rintro a (ha | ha) rfl
    · rw [← hc.left] at ha
      exact hnode (List.mem_append_left r ha)
    · refine hnode ?_
      simp only [List.mem_cons, List.mem_append, List.not_mem_nil, or_false] at ha ⊢
      tauto
  have hpos' : pos ≠ node := hmem pos (.inl (by simp))
  have hafter' : r.head?.getD head ≠ node := by
    refine hmem _ (.inr ?_)
    rw [hc.right]
    exact List.mem_cons_self
  refine ⟨?_, ?_⟩
  · have hperm : (head :: (l ++ node :: r)).Perm (node :: (head :: (l ++ r))) :=
      (List.perm_middle.cons head).trans (List.Perm.swap node head _)
    exact hperm.nodup_iff.mpr (List.nodup_cons.mpr ⟨hnode, hr.nodup⟩)
  · rw [List.append_assoc, List.cons_append, hc.right, ← List.cons_append, hc.left,
      List.append_assoc, List.singleton_append, List.isChain_append_cons_cons,
      List.isChain_cons_cons]
    refine ⟨hc.front_congr ?_ ?_, ⟨?_, ?_⟩, ⟨?_, ?_⟩, hc.back_congr ?_ ?_⟩
    · intro a ha
      have hne : a ≠ pos := fun heq ↦ hc.front_next (heq ▸ ha)
      exact (Function.update_of_ne hne _ _).trans
        (Function.update_of_ne (hmem a (.inl (List.mem_append_left _ ha))) _ _)
    · intro a ha
      have hne : a ≠ r.head?.getD head := fun heq ↦ hc.front_prev (heq ▸ ha)
      have hin : a ∈ front ++ [pos] := hc.left ▸ List.mem_cons_of_mem head ha
      exact (Function.update_of_ne hne _ _).trans (Function.update_of_ne (hmem a (.inl hin)) _ _)
    · exact Function.update_self _ _ _
    · exact (Function.update_of_ne hafter'.symm _ _).trans (Function.update_self _ _ _)
    · exact (Function.update_of_ne hpos'.symm _ _).trans (Function.update_self _ _ _)
    · exact Function.update_self _ _ _
    · intro a ha
      have hne : a ≠ pos := fun heq ↦ hc.back_next (heq ▸ ha)
      exact (Function.update_of_ne hne _ _).trans
        (Function.update_of_ne (hmem a (.inr (List.mem_append_left _ ha))) _ _)
    · intro a ha
      have hne : a ≠ r.head?.getD head := fun heq ↦ hc.back_prev (heq ▸ ha)
      have hin : a ∈ r ++ [head] := hc.right ▸ List.mem_cons_of_mem _ ha
      exact (Function.update_of_ne hne _ _).trans (Function.update_of_ne (hmem a (.inr hin)) _ _)

/-- **Removal.** Cut the ring before and behind the node and join what is outside. -/
theorem unlinked (hr : h.Ring head (l ++ entry :: r)) (hpos : (head :: l).getLast? = some pos) :
    (h.unlinked null entry pos (r.head?.getD head)).Ring head (l ++ r) := by
  obtain ⟨front, back', hc⟩ := hr.cut hpos
  have hr' : h.Ring head ((l ++ [entry]) ++ r) := by
    rwa [List.append_assoc, List.singleton_append]
  have hlast : (head :: (l ++ [entry])).getLast? = some entry := by
    rw [← List.cons_append, List.getLast?_concat]
  obtain ⟨front', back, hc'⟩ := hr'.cut hlast
  have hback : back' = r.head?.getD head :: back := by
    have hright := hc.right
    rw [List.cons_append, hc'.right] at hright
    exact (List.cons.inj hright).2.symm
  have hentry := hr.not_mem_rest
  obtain ⟨hne, hne'⟩ := hr.ne_neighbours hpos
  refine ⟨hr.nodup.sublist ?_, ?_⟩
  · exact ((List.sublist_cons_self entry r).append_left l).cons_cons head
  · rw [List.append_assoc, hc'.right, ← List.cons_append, hc.left, List.append_assoc,
      List.singleton_append, List.isChain_append_cons_cons]
    refine ⟨hc.front_congr ?_ ?_, ⟨?_, ?_⟩, hc'.back_congr ?_ ?_⟩
    · intro a ha
      have hin : a ∈ head :: l := hc.left ▸ List.mem_append_left _ ha
      have h₁ : a ≠ entry := fun heq ↦ hentry (heq ▸ List.mem_append_left r hin)
      have h₂ : a ≠ pos := fun heq ↦ hc.front_next (heq ▸ ha)
      exact (Function.update_of_ne h₁ _ _).trans (Function.update_of_ne h₂ _ _)
    · intro a ha
      have h₁ : a ≠ entry := fun heq ↦ hc.front_prev (heq ▸ ha)
      have h₂ : a ≠ r.head?.getD head := fun heq ↦
        hc'.front_prev (heq ▸ List.mem_append_left _ ha)
      exact (Function.update_of_ne h₁ _ _).trans (Function.update_of_ne h₂ _ _)
    · exact (Function.update_of_ne hne.symm _ _).trans (Function.update_self _ _ _)
    · exact (Function.update_of_ne hne'.symm _ _).trans (Function.update_self _ _ _)
    · intro a ha
      have h₁ : a ≠ entry := fun heq ↦ hc'.back_next (heq ▸ ha)
      have h₂ : a ≠ pos := fun heq ↦ hc.back_next (heq ▸ List.mem_cons_of_mem _ ha)
      exact (Function.update_of_ne h₁ _ _).trans (Function.update_of_ne h₂ _ _)
    · intro a ha
      have h₁ : a ≠ entry := fun heq ↦ hc.back_prev
        (heq ▸ hback ▸ List.mem_cons_of_mem _ ha)
      have h₂ : a ≠ r.head?.getD head := fun heq ↦ hc'.back_prev (heq ▸ ha)
      exact (Function.update_of_ne h₁ _ _).trans (Function.update_of_ne h₂ _ _)

/-! ## What the operations do to a ring -/

/-- `add` puts a node behind the head or a member. -/
theorem add (hr : h.Ring head (l ++ r)) (hpos : (head :: l).getLast? = some pos)
    (hnode : node ∉ head :: (l ++ r)) (hlive : h.Live node) :
    ∃ h', h.add node pos = some h' ∧ h'.Ring head (l ++ node :: r) ∧
      Only (node :: head :: (l ++ r)) h h' := by
  have hlink := hr.linked hpos
  have hpos' : pos ∈ head :: (l ++ r) := List.mem_append_left r (List.mem_of_getLast? hpos)
  have hafter : r.head?.getD head ∈ head :: (l ++ r) := after_mem head l r
  refine ⟨_, add_eq hlink hlive fun heq ↦ hnode (heq ▸ hpos'), hr.linkedIn hpos hnode, ?_⟩
  refine (only_linkedIn hlive (hr.live _ hpos').1 (hr.live _ hafter).2).mono ?_
  simp only [List.cons_subset, List.nil_subset, and_true]
  exact ⟨List.mem_cons_self, List.mem_cons_of_mem _ hpos', List.mem_cons_of_mem _ hafter⟩

/-- `addTail` on the head puts a node at the end. -/
theorem addTail (hr : h.Ring head as) (hnode : node ∉ head :: as) (hlive : h.Live node) :
    ∃ h', h.addTail node head = some h' ∧ h'.Ring head (as ++ [node]) ∧
      Only (node :: head :: as) h h' := by
  obtain ⟨pos, hpos⟩ := Option.isSome_iff_exists.mp
    (List.getLast?_isSome.mpr (List.cons_ne_nil head as))
  have hr' : h.Ring head (as ++ []) := by rwa [List.append_nil]
  have hpos' : pos ∈ head :: as := List.mem_of_getLast? hpos
  have hhead : head ∈ head :: as := List.mem_cons_self
  refine ⟨_, addTail_eq (hr.linked_last hpos) hlive fun heq ↦ hnode (heq ▸ hhead),
    hr'.linkedIn hpos (by rwa [List.append_nil]), ?_⟩
  refine (only_linkedIn hlive (hr.live _ hpos').1 (hr.live _ hhead).2).mono ?_
  simp only [List.cons_subset, List.nil_subset, and_true]
  exact ⟨List.mem_cons_self, List.mem_cons_of_mem _ hpos', List.mem_cons_of_mem _ hhead⟩

theorem del (hr : h.Ring head (l ++ entry :: r)) (null : α) :
    ∃ h', h.del null entry = some h' ∧ h'.Ring head (l ++ r) ∧
      Only (head :: (l ++ entry :: r)) h h' := by
  obtain ⟨pos, hpos⟩ := Option.isSome_iff_exists.mp
    (List.getLast?_isSome.mpr (List.cons_ne_nil head l))
  obtain ⟨hbefore, hbehind⟩ := hr.linked_member hpos
  have hentry : entry ∈ head :: (l ++ entry :: r) := by simp
  have hpos' : pos ∈ head :: (l ++ entry :: r) :=
    List.mem_append_left _ (List.mem_of_getLast? hpos)
  have hafter : r.head?.getD head ∈ head :: (l ++ entry :: r) := by
    have hmem := after_mem head (l ++ [entry]) r
    rwa [List.append_assoc, List.singleton_append] at hmem
  have hne := hr.ne_neighbours hpos
  refine ⟨_, del_eq hbefore hbehind hne.1 hne.2 (hr.live _ hpos') (hr.live _ hafter),
    hr.unlinked hpos, ?_⟩
  refine (only_unlinked (hr.live _ hentry) (hr.live _ hpos').1 (hr.live _ hafter).2).mono ?_
  simp only [List.cons_subset, List.nil_subset, and_true]
  exact ⟨hentry, hpos', hafter⟩

/-- A fresh head is an empty ring. -/
theorem init (hlive : h.Live a) :
    ∃ h', h.init a = some h' ∧ h'.Ring a [] ∧ Only [a] h h' := by
  obtain ⟨n, hn⟩ := Option.isSome_iff_exists.mp hlive.1
  obtain ⟨p, hp⟩ := Option.isSome_iff_exists.mp hlive.2
  refine ⟨⟨Function.update h.next a (some a), Function.update h.prev a (some a)⟩, ?_, ?_, ?_⟩
  · simp [Heap.init, setNext, setPrev, hn, hp]
  · refine ⟨List.nodup_cons.mpr ⟨List.not_mem_nil, List.nodup_nil⟩, ?_⟩
    rw [List.nil_append, List.isChain_pair]
    exact ⟨Function.update_self _ _ _, Function.update_self _ _ _⟩
  · refine ⟨fun x hx ↦ Function.update_of_ne (by simpa using hx) _ _,
      fun x hx ↦ Function.update_of_ne (by simpa using hx) _ _, fun x ↦ ?_⟩
    exact and_congr (isSome_update hlive.1 a x) (isSome_update hlive.2 a x)

end Ring

end Heap

end RingList
