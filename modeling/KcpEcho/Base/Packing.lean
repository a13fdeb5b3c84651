import Mathlib.Algebra.BigOperators.Group.List.Basic
import Mathlib.Algebra.Order.Ring.Nat

/-!
# Packing a sequence into as few runs as possible

Items of given weights are to be cut, in the order they come in, into runs no heavier than a
capacity. The greedy way puts an item into the current run if it fits there and opens a new run
otherwise. It is optimal: no other way of cutting the same sequence needs fewer runs
(`length_pack_le`).

The argument compares two packers by the weight of their current runs. The lighter one is never
behind, and at most one run ahead of the other (`further_mono`, `further_le_succ`), so nothing is
gained by closing a run early.
-/

namespace Packing

variable {α : Type*} (weight : α → ℕ) (cap : ℕ)

/-- The weight of a run. -/
def total (xs : List α) : ℕ := (xs.map weight).sum

@[simp] theorem total_nil : total weight ([] : List α) = 0 := rfl

@[simp] theorem total_cons (a : α) (xs : List α) :
    total weight (a :: xs) = weight a + total weight xs := List.sum_cons

@[simp] theorem total_append (xs ys : List α) :
    total weight (xs ++ ys) = total weight xs + total weight ys := by
  rw [total, List.map_append, List.sum_append]
  rfl

/-- The runs that are closed, and the one that is being filled. -/
structure Runs (α : Type*) where
  closed : List (List α) := []
  last : List α := []

namespace Runs

/-- Close the current run, unless there is nothing in it. -/
def close (r : Runs α) : List (List α) :=
  if r.last = [] then r.closed else r.closed ++ [r.last]

/-- Add an item, closing the current run first if the item does not fit. -/
def put (r : Runs α) (a : α) : Runs α :=
  if total weight r.last + weight a > cap then { closed := r.close, last := [a] }
  else { r with last := r.last ++ [a] }

end Runs

/-- The greedy packing. -/
def pack (xs : List α) : List (List α) := (xs.foldl (Runs.put weight cap) {}).close

/-! ## What is packed -/

variable {weight cap}

theorem Runs.flatten_close (r : Runs α) : r.close.flatten = r.closed.flatten ++ r.last := by
  rw [Runs.close]
  split_ifs with h
  · rw [h, List.append_nil]
  · rw [List.flatten_append, List.flatten_singleton]

theorem Runs.contents_foldl (xs : List α) (r : Runs α) :
    (xs.foldl (put weight cap) r).close.flatten = r.close.flatten ++ xs := by
  induction xs generalizing r with
  | nil => rw [List.foldl_nil, List.append_nil]
  | cons a xs ih =>
    rw [List.foldl_cons, ih, Runs.flatten_close, put]
    split_ifs
    · rw [List.append_assoc]
      rfl
    · rw [Runs.flatten_close, List.append_assoc, List.append_assoc, List.append_assoc]
      rfl

/-- **Nothing is lost, doubled or moved.** -/
theorem flatten_pack (xs : List α) : (pack weight cap xs).flatten = xs :=
  Runs.contents_foldl xs {}

/-- A property of runs that no part of the packing breaks. -/
theorem Runs.forall_foldl {P : List α → Prop} (xs : List α) {r : Runs α}
    (hclosed : ∀ g ∈ r.closed, P g) (hlast : r.last ≠ [] → P r.last)
    (hsingle : ∀ a ∈ xs, P [a])
    (happend : ∀ g, ∀ a ∈ xs, total weight g + weight a ≤ cap → P (g ++ [a])) :
    ∀ g ∈ (xs.foldl (put weight cap) r).close, P g := by
  induction xs generalizing r with
  | nil =>
    intro g hg
    rw [List.foldl_nil, Runs.close] at hg
    split_ifs at hg with hempty
    · exact hclosed g hg
    · rcases List.mem_append.mp hg with hg | hg
      · exact hclosed g hg
      · exact List.mem_singleton.mp hg ▸ hlast hempty
  | cons a xs ih =>
    have hsingle' : ∀ b ∈ xs, P [b] := fun b hb ↦ hsingle b (List.mem_cons_of_mem _ hb)
    have happend' : ∀ g, ∀ b ∈ xs, total weight g + weight b ≤ cap → P (g ++ [b]) :=
      fun g b hb ↦ happend g b (List.mem_cons_of_mem _ hb)
    rw [List.foldl_cons, put]
    split_ifs with hfit
    · refine ih ?_ (fun _ ↦ hsingle a List.mem_cons_self) hsingle' happend'
      intro g hg
      rw [Runs.close] at hg
      split_ifs at hg with hempty
      · exact hclosed g hg
      · rcases List.mem_append.mp hg with hg | hg
        · exact hclosed g hg
        · exact List.mem_singleton.mp hg ▸ hlast hempty
    · exact ih hclosed (fun _ ↦ happend _ a List.mem_cons_self (not_lt.mp hfit)) hsingle' happend'

theorem ne_nil_of_mem_pack {xs g : List α} (h : g ∈ pack weight cap xs) : g ≠ [] :=
  Runs.forall_foldl (P := fun g ↦ g ≠ []) xs (fun _ hg ↦ absurd hg List.not_mem_nil) id
    (fun _ _ ↦ List.cons_ne_nil _ _)
    (fun _ _ _ _ ↦ List.append_ne_nil_of_right_ne_nil _ (List.cons_ne_nil _ _)) g h

theorem total_le_of_mem_pack {xs g : List α} (hxs : ∀ a ∈ xs, weight a ≤ cap)
    (h : g ∈ pack weight cap xs) : total weight g ≤ cap := by
  refine Runs.forall_foldl (P := fun g ↦ total weight g ≤ cap) xs
    (fun _ hg ↦ absurd hg List.not_mem_nil) (fun _ ↦ Nat.zero_le _) ?_ ?_ g h
  · intro a ha
    simpa using hxs a ha
  · intro g a _ hfit
    simpa using hfit

/-! ## How many runs -/

variable (weight cap)

/-- The runs still to be opened when the current one weighs `w`. -/
def further : ℕ → List α → ℕ
  | _, [] => 0
  | w, a :: xs => if w + weight a > cap then further (weight a) xs + 1 else further (w + weight a) xs

variable {weight cap}

/-- **A lighter current run is worth at most one run, and never costs one.** -/
theorem further_mono (xs : List α) {w w' : ℕ} (h : w ≤ w') :
    further weight cap w xs ≤ further weight cap w' xs ∧
      further weight cap w' xs ≤ further weight cap w xs + 1 := by
  induction xs generalizing w w' with
  | nil => exact ⟨le_rfl, Nat.zero_le _⟩
  | cons a xs ih =>
    rw [further, further]
    by_cases hw : w + weight a > cap
    · rw [if_pos hw, if_pos (by omega)]
      exact ⟨le_rfl, Nat.le_succ _⟩
    · rw [if_neg hw]
      by_cases hw' : w' + weight a > cap
      · -- only the heavier packer opens a run, and is the lighter one from here on
        rw [if_pos hw']
        obtain ⟨hle, hle'⟩ := @ih (weight a) (w + weight a) (Nat.le_add_left _ _)
        exact ⟨hle', Nat.succ_le_succ hle⟩
      · rw [if_neg hw']
        exact ih (Nat.add_le_add_right h _)

theorem further_append (xs ys : List α) {w : ℕ} (h : w + total weight xs ≤ cap) :
    further weight cap w (xs ++ ys) = further weight cap (w + total weight xs) ys := by
  induction xs generalizing w with
  | nil => rfl
  | cons a xs ih =>
    rw [total_cons] at h
    rw [List.cons_append, further, if_neg (by omega), ih (by omega), total_cons, Nat.add_assoc]

/-- Whoever cuts the rest of the sequence opens at least as many runs. -/
theorem further_flatten_le (groups : List (List α)) (h : ∀ g ∈ groups, total weight g ≤ cap)
    (w : ℕ) : further weight cap w groups.flatten ≤ groups.length := by
  induction groups generalizing w with
  | nil => exact Nat.zero_le _
  | cons g gs ih =>
    have hg := h g List.mem_cons_self
    -- at worst a new run is opened right away
    have hlight := (@further_mono _ weight cap (g ++ gs.flatten) 0 w (Nat.zero_le w)).2
    have hfirst := @further_append _ weight cap g gs.flatten 0 (by omega)
    have hrest := ih (fun g hg ↦ h g (List.mem_cons_of_mem _ hg)) (0 + total weight g)
    rw [List.flatten_cons, List.length_cons]
    omega

theorem Runs.length_foldl (xs : List α) {r : Runs α} (h : r.last ≠ []) :
    (xs.foldl (put weight cap) r).close.length
      = r.closed.length + 1 + further weight cap (total weight r.last) xs := by
  induction xs generalizing r with
  | nil => rw [List.foldl_nil, Runs.close, if_neg h, List.length_append, further]; rfl
  | cons a xs ih =>
    rw [List.foldl_cons, further, put]
    split_ifs
    · rw [ih (List.cons_ne_nil _ _), Runs.close, if_neg h, List.length_append]
      simp
      omega
    · rw [ih (List.append_ne_nil_of_right_ne_nil _ (List.cons_ne_nil _ _))]
      simp

/-- **The greedy packing is optimal.** No way of cutting the sequence into runs within the capacity
needs fewer. -/
theorem length_pack_le (groups : List (List α)) (h : ∀ g ∈ groups, total weight g ≤ cap) :
    (pack weight cap groups.flatten).length ≤ groups.length := by
  -- the first run is opened by the first item, and not counted by `further`
  induction groups with
  | nil => exact le_rfl
  | cons g gs ih =>
    cases hg : g with
    | nil =>
      rw [List.flatten_cons, List.nil_append]
      exact (ih fun g hg ↦ h g (List.mem_cons_of_mem _ hg)).trans (Nat.le_succ _)
    | cons a g' =>
      have hfit := h g List.mem_cons_self
      rw [hg, total_cons] at hfit
      have hrest := further_flatten_le gs (fun g hg ↦ h g (List.mem_cons_of_mem _ hg))
        (weight a + total weight g')
      have hput : Runs.put weight cap {} a = { closed := [], last := [a] } := by
        rw [Runs.put, if_neg (by rw [total_nil]; omega)]
        rfl
      have hsingle : total weight [a] = weight a := by simp
      rw [pack, List.flatten_cons, List.cons_append, List.foldl_cons, hput,
        Runs.length_foldl _ (List.cons_ne_nil _ _), hsingle,
        further_append g' gs.flatten (by omega), List.length_cons]
      simp only [List.length_nil]
      omega

end Packing
