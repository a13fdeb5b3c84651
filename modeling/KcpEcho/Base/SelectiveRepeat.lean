import Mathlib.Order.Lattice.Nat
import Mathlib.Data.Set.Lattice

/-!
# Selective repeat, abstractly

One direction of a sliding-window protocol with selective and cumulative acknowledgements, over
true (unbounded) sequence numbers and payloads of any type. There is no network here: a message is
represented by what it is entitled to say, and the state records three growing sets of numbers,

* `got`, the numbers the receiver has stored;
* `granted`, the numbers it had stored when it last reported;
* `acked`, the numbers the sender has been told about and has dropped from its buffer.

They are nested, `acked ⊆ granted ⊆ got ⊆ {k | k < sent.length}`, and taking the first number
missing from each gives the sender's window start, a bound that stands still between two reports
of the receiver, and the number the receiver delivers next:

`una ≤ reported ≤ nxt ≤ sent.length ≤ una + W`.

That chain (`Link.Inv.chain`) is the whole theory of the window: no bookkeeping of individual
messages enters it, so loss, duplication and reordering cannot disturb it.
-/

namespace SelectiveRepeat

/-! ## The first missing number -/

/-- The least number not in a set. -/
noncomputable def first (s : Set ℕ) : ℕ := sInf sᶜ

theorem mem_of_lt_first {s : Set ℕ} {k : ℕ} (h : k < first s) : k ∈ s := by
  by_contra hk
  exact absurd (Nat.sInf_le hk) (not_le.mpr h)

theorem first_le_of_notMem {s : Set ℕ} {n : ℕ} (h : n ∉ s) : first s ≤ n := Nat.sInf_le h

theorem first_notMem {s : Set ℕ} {n : ℕ} (h : n ∉ s) : first s ∉ s :=
  Nat.sInf_mem (⟨n, h⟩ : sᶜ.Nonempty)

theorem first_eq {s : Set ℕ} {n : ℕ} (hlt : ∀ k < n, k ∈ s) (hn : n ∉ s) : first s = n := by
  refine le_antisymm (first_le_of_notMem hn) (not_lt.mp ?_)
  intro h
  exact first_notMem hn (hlt _ h)

theorem le_first {s : Set ℕ} {m n : ℕ} (hn : n ∉ s) (h : ∀ k < m, k ∈ s) : m ≤ first s :=
  not_lt.mp fun hlt ↦ first_notMem hn (h _ hlt)

theorem first_mono {s t : Set ℕ} (h : s ⊆ t) {n : ℕ} (hn : n ∉ t) : first s ≤ first t :=
  le_first hn fun _ hk ↦ h (mem_of_lt_first hk)

/-! ## One direction -/

variable {α : Type*} {W : ℕ}

/-- The state of one direction. -/
structure Link (α : Type*) where
  /-- The payload of every number assigned so far. -/
  sent : List α
  /-- The numbers the sender has dropped. -/
  acked : Set ℕ
  /-- The numbers stored at the receiver when it last reported. -/
  granted : Set ℕ
  /-- The numbers stored at the receiver. -/
  got : Set ℕ

namespace Link

/-- The start of the sender's window. -/
noncomputable def una (l : Link α) : ℕ := first l.acked

/-- The number the receiver was waiting for when it last reported. -/
noncomputable def reported (l : Link α) : ℕ := first l.granted

/-- The number the receiver is waiting for. -/
noncomputable def nxt (l : Link α) : ℕ := first l.got

/-- The numbers the sender still holds. -/
def unacked (l : Link α) : Set ℕ := {k | k < l.sent.length ∧ k ∉ l.acked}

/-- The numbers the receiver holds back until the ones before them have arrived. -/
def waiting (l : Link α) : Set ℕ := {k | k ∈ l.got ∧ l.nxt ≤ k}

/-- Nothing sent yet. -/
def empty : Link α := ⟨[], ∅, ∅, ∅⟩

theorem first_empty : first ∅ = 0 :=
  first_eq (fun _ hk ↦ absurd hk (Nat.not_lt_zero _)) (Set.notMem_empty 0)

theorem una_empty : (empty : Link α).una = 0 := first_empty

theorem nxt_empty : (empty : Link α).nxt = 0 := first_empty

/-- The invariant: the nesting, and the window bound. -/
structure Inv (W : ℕ) (l : Link α) : Prop where
  acked_granted : l.acked ⊆ l.granted
  granted_got : l.granted ⊆ l.got
  got_sent : ∀ k ∈ l.got, k < l.sent.length
  window : l.sent.length ≤ l.una + W

namespace Inv

variable {l : Link α}

theorem length_notMem_got (h : l.Inv W) : l.sent.length ∉ l.got :=
  fun hk ↦ lt_irrefl _ (h.got_sent _ hk)

theorem length_notMem_granted (h : l.Inv W) : l.sent.length ∉ l.granted :=
  fun hk ↦ h.length_notMem_got (h.granted_got hk)

theorem length_notMem_acked (h : l.Inv W) : l.sent.length ∉ l.acked :=
  fun hk ↦ h.length_notMem_granted (h.acked_granted hk)

theorem una_le_reported (h : l.Inv W) : l.una ≤ l.reported :=
  first_mono h.acked_granted h.length_notMem_granted

theorem reported_le_nxt (h : l.Inv W) : l.reported ≤ l.nxt :=
  first_mono h.granted_got h.length_notMem_got

theorem nxt_le_length (h : l.Inv W) : l.nxt ≤ l.sent.length :=
  first_le_of_notMem h.length_notMem_got

/-- **The window chain.** -/
theorem chain (h : l.Inv W) :
    l.una ≤ l.reported ∧ l.reported ≤ l.nxt ∧ l.nxt ≤ l.sent.length ∧
      l.sent.length ≤ l.una + W :=
  ⟨h.una_le_reported, h.reported_le_nxt, h.nxt_le_length, h.window⟩

/-- What the sender holds lies in its window. -/
theorem mem_unacked_bounds (h : l.Inv W) {k : ℕ} (hk : k ∈ l.unacked) :
    l.una ≤ k ∧ k < l.sent.length ∧ l.sent.length ≤ k + W :=
  have hle : l.una ≤ k := first_le_of_notMem hk.2
  ⟨hle, hk.1, h.window.trans (Nat.add_le_add_right hle W)⟩

/-- The window starts at the first number the sender holds. -/
theorem una_eq_of_least {k : ℕ} (hk : k ∈ l.unacked) (hle : ∀ j ∈ l.unacked, k ≤ j) :
    l.una = k := by
  refine first_eq ?_ hk.2
  intro j hj
  by_contra hnot
  exact absurd (hle j ⟨hj.trans hk.1, hnot⟩) (not_le.mpr hj)

/-- Without a number to hold the window is closed up. -/
theorem una_eq_length (h : l.Inv W) (hnone : l.unacked = ∅) : l.una = l.sent.length := by
  refine first_eq ?_ h.length_notMem_acked
  intro j hj
  by_contra hnot
  exact Set.notMem_empty j (hnone ▸ ⟨hj, hnot⟩)

/-! ### The operations -/

theorem empty : (Link.empty : Link α).Inv W where
  acked_granted := subset_rfl
  granted_got := subset_rfl
  got_sent k hk := absurd hk (Set.notMem_empty k)
  window := Nat.zero_le _

/-- The sender assigns the next number, inside its window. -/
theorem push (h : l.Inv W) (a : α) (hroom : l.sent.length < l.una + W) :
    Inv W { l with sent := l.sent ++ [a] } where
  acked_granted := h.acked_granted
  granted_got := h.granted_got
  got_sent k hk := by
    have := h.got_sent k hk
    rw [List.length_append]
    omega
  window := by
    rw [List.length_append, List.length_singleton]
    exact hroom

/-- The receiver reports everything it has stored. -/
theorem report (h : l.Inv W) : Inv W { l with granted := l.got } where
  acked_granted := h.acked_granted.trans h.granted_got
  granted_got := subset_rfl
  got_sent := h.got_sent
  window := h.window

/-- The sender learns of reported numbers. -/
theorem ack (h : l.Inv W) {s : Set ℕ} (hs : s ⊆ l.granted) :
    Inv W { l with acked := l.acked ∪ s } where
  acked_granted := Set.union_subset h.acked_granted hs
  granted_got := h.granted_got
  got_sent := h.got_sent
  window := by
    have hmono : first l.acked ≤ first (l.acked ∪ s) := first_mono Set.subset_union_left
      (fun hk ↦ h.length_notMem_granted (Set.union_subset h.acked_granted hs hk))
    exact h.window.trans (Nat.add_le_add_right hmono W)

/-- The receiver stores a number that was sent. -/
theorem store (h : l.Inv W) {k : ℕ} (hk : k < l.sent.length) :
    Inv W { l with got := insert k l.got } where
  acked_granted := h.acked_granted
  granted_got := h.granted_got.trans (Set.subset_insert k _)
  got_sent j hj := by
    rcases Set.mem_insert_iff.mp hj with rfl | hj
    · exact hk
    · exact h.got_sent j hj
  window := h.window

end Inv
end Link

/-! ## What a message may say

A report is justified by the link as it was when the message left, and stays justified: `sent` and
`granted` only grow. -/

/-- `l'` is a later state of the same direction, as far as messages can tell. -/
structure Link.Extends (l l' : Link α) : Prop where
  sent : l.sent <+: l'.sent
  granted : l.granted ⊆ l'.granted

theorem Link.Extends.getElem? {l l' : Link α} (h : l.Extends l') {k : ℕ} {a : α}
    (hk : l.sent[k]? = some a) : l'.sent[k]? = some a := by
  obtain ⟨t, ht⟩ := h.sent
  rw [← ht, List.getElem?_append_left (List.getElem?_eq_some_iff.mp hk).1, hk]

end SelectiveRepeat
