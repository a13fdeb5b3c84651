import Mathlib.Data.Set.Insert
import Mathlib.Order.Lattice.Nat

/-!
# Lists that enumerate a set of numbers

A buffer that holds one entry for each number of a set, in increasing order, without storing the
numbers themselves: what ties an entry to its number is a relation `R`, such as "carries the
residue of this number". `Enumerates R s xs` says that `xs` is such a buffer for the set `s`.

A scan over the buffer is verified by induction on the list. `uncons` hands out the least number
of the set with the head of the list, and `unconcat` the greatest one with the last entry, for
scans that run backward; `cons` and `concat` put an entry back.
-/

variable {β : Type*}

/-- The list holds one entry for each number of the set, in increasing order. -/
inductive Enumerates (R : ℕ → β → Prop) : Set ℕ → List β → Prop
  | nil : Enumerates R ∅ []
  | cons {k : ℕ} {x : β} {s : Set ℕ} {xs : List β} :
      (∀ j ∈ s, k < j) → R k x → Enumerates R s xs → Enumerates R (insert k s) (x :: xs)

namespace Enumerates

variable {R R' : ℕ → β → Prop} {s t : Set ℕ} {x : β} {xs : List β}

theorem of_eq (h : Enumerates R s xs) (hst : s = t) : Enumerates R t xs := hst ▸ h

theorem mono (h : Enumerates R s xs) (hR : ∀ k x, R k x → R' k x) : Enumerates R' s xs := by
  induction h with
  | nil => exact .nil
  | cons hlt hx _ ih => exact .cons hlt (hR _ _ hx) ih

theorem exists_of_mem (h : Enumerates R s xs) (hx : x ∈ xs) : ∃ k ∈ s, R k x := by
  induction h with
  | nil => exact absurd hx List.not_mem_nil
  | @cons k y s xs hlt hy _ ih =>
    rcases List.mem_cons.mp hx with rfl | hx
    · exact ⟨k, Set.mem_insert k s, hy⟩
    · obtain ⟨j, hj, hR⟩ := ih hx
      exact ⟨j, Set.mem_insert_of_mem k hj, hR⟩

/-! ## The front -/

theorem eq_empty (h : Enumerates R s []) : s = ∅ := by
  cases h
  rfl

/-- The head of the list has the least number. -/
theorem uncons (h : Enumerates R s (x :: xs)) :
    ∃ k ∈ s, (∀ j ∈ s, k ≤ j) ∧ R k x ∧ Enumerates R (s \ {k}) xs := by
  cases h with
  | @cons k _ s _ hlt hx hxs =>
    refine ⟨k, Set.mem_insert k s, fun j hj ↦ ?_, hx, hxs.of_eq ?_⟩
    · rcases Set.mem_insert_iff.mp hj with rfl | hj
      · exact le_rfl
      · exact (hlt j hj).le
    · have hk : k ∉ s := fun hk ↦ lt_irrefl k (hlt k hk)
      rw [Set.insert_sdiff_of_mem _ (Set.mem_singleton k), Set.sdiff_singleton_eq_self hk]

/-- The head goes back in front of what a scan has left of the rest. -/
theorem recons {k : ℕ} (hk : k ∈ s) (hle : ∀ j ∈ s, k ≤ j) (hx : R k x) (hkt : k ∉ t)
    (h : Enumerates R ((s \ {k}) \ t) xs) : Enumerates R (s \ t) (x :: xs) := by
  refine (Enumerates.cons (fun j hj ↦ ?_) hx h).of_eq ?_
  · exact lt_of_le_of_ne (hle j hj.1.1) fun h ↦ hj.1.2 h.symm
  · ext j
    simp only [Set.mem_insert_iff, Set.mem_sdiff, Set.mem_singleton_iff]
    constructor
    · rintro (rfl | h)
      · exact ⟨hk, hkt⟩
      · exact ⟨h.1.1, h.2⟩
    · intro h
      by_cases hjk : j = k
      · exact .inl hjk
      · exact .inr ⟨⟨h.1, hjk⟩, h.2⟩

/-- The head goes, and with it a number that was to go anyway. -/
theorem drop_head {k : ℕ} (hkt : k ∈ t) (h : Enumerates R ((s \ {k}) \ t) xs) :
    Enumerates R (s \ t) xs := by
  have ht : {k} ∪ t = t := Set.union_eq_right.mpr (Set.singleton_subset_iff.mpr hkt)
  rwa [Set.sdiff_sdiff, ht] at h

/-! ## The back -/

theorem concat (h : Enumerates R s xs) {k : ℕ} (hlt : ∀ j ∈ s, j < k) (hx : R k x) :
    Enumerates R (insert k s) (xs ++ [x]) := by
  induction h with
  | nil => exact .cons (fun j hj ↦ absurd hj (Set.notMem_empty j)) hx .nil
  | @cons i y s xs hi hy _ ih =>
    rw [Set.insert_comm, List.cons_append]
    refine .cons ?_ hy (ih fun j hj ↦ hlt j (Set.mem_insert_of_mem i hj))
    intro j hj
    rcases Set.mem_insert_iff.mp hj with rfl | hj
    · exact hlt i (Set.mem_insert i s)
    · exact hi j hj

/-- The last entry of the list has the greatest number. -/
theorem unconcat (h : Enumerates R s (xs ++ [x])) :
    ∃ k ∈ s, (∀ j ∈ s, j ≤ k) ∧ R k x ∧ Enumerates R (s \ {k}) xs := by
  induction xs generalizing s with
  | nil =>
    obtain ⟨k, hk, hle, hx, hnil⟩ := h.uncons
    have hs : ∀ j ∈ s, j = k := fun j hj ↦ by
      by_contra hne
      have hmem : j ∈ s \ {k} := ⟨hj, hne⟩
      rw [hnil.eq_empty] at hmem
      exact hmem
    exact ⟨k, hk, fun j hj ↦ (hs j hj).le, hx, hnil⟩
  | cons y xs ih =>
    obtain ⟨i, hi, hle, hy, htail⟩ := h.uncons
    obtain ⟨k, hk, hge, hx, hrest⟩ := ih htail
    refine ⟨k, hk.1, fun j hj ↦ ?_, hx, ?_⟩
    · by_cases hji : j = i
      · exact hji ▸ hle k hk.1
      · exact hge j ⟨hj, hji⟩
    · -- what is left is the least number and the rest of the middle
      exact recons hi hle hy (fun h ↦ hk.2 h.symm) hrest

end Enumerates
