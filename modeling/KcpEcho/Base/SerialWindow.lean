import KcpEcho.Base.SerialNumber
import Mathlib.Data.List.Perm.Subperm

/-!
# Buffers ordered by serial numbers

A buffer whose entries carry residues of a wrapping counter is in order when the residues are, as
seen from a base that is behind all of them. `Window key base n xs` says so, and that no entry is
`n` or more ahead of the base.

The base of such a buffer moves: forward when entries have left at the front (`Window.rebase`). As
long as `n` is at most half the range of the counter, the signed distance of two entries has the
sign of their order (`diff_neg_iff`), whatever the base.
-/

namespace Serial

variable {α β : Type*} {w : ℕ}

/-- The entries are in order and less than `n` ahead of the base. -/
structure Window (key : α → BitVec w) (base : BitVec w) (n : ℕ) (xs : List α) : Prop where
  sorted : xs.Pairwise fun x y ↦ elapsed (key x) base < elapsed (key y) base
  within : ∀ x ∈ xs, elapsed (key x) base < n

namespace Window

variable {key : α → BitVec w} {base base' : BitVec w} {n m : ℕ} {x : α} {xs ys : List α}

theorem nil : Window key base n [] := ⟨.nil, fun _ h ↦ absurd h List.not_mem_nil⟩

theorem sublist (h : Window key base n xs) (hys : ys.Sublist xs) : Window key base n ys :=
  ⟨h.sorted.sublist hys, fun y hy ↦ h.within y (hys.subset hy)⟩

theorem mono (h : Window key base n xs) (hle : n ≤ m) : Window key base m xs :=
  ⟨h.sorted, fun x hx ↦ (h.within x hx).trans_le hle⟩

theorem tail (h : Window key base n (x :: xs)) : Window key base n xs :=
  h.sublist (List.sublist_cons_self x xs)

theorem head_lt (h : Window key base n (x :: xs)) :
    ∀ y ∈ xs, elapsed (key x) base < elapsed (key y) base := (List.pairwise_cons.mp h.sorted).1

/-- The entries that are left are seen from a base further on. -/
theorem rebase (h : Window key base n xs)
    (hbase : ∀ x ∈ xs, elapsed base' base ≤ elapsed (key x) base) :
    Window key base' (n - elapsed base' base) xs where
  sorted := by
    refine h.sorted.imp_of_mem fun {x y} hx hy hlt ↦ ?_
    have hx := hbase x hx
    rw [elapsed_rebase hx, elapsed_rebase (hbase y hy)]
    omega
  within x hx := by
    have hlt := h.within x hx
    have hle := hbase x hx
    rw [elapsed_rebase hle]
    omega

/-- An entry at the place the order gives it. -/
theorem insert (h : Window key base n (xs ++ ys)) (hx : elapsed (key x) base < n)
    (hxs : ∀ y ∈ xs, elapsed (key y) base < elapsed (key x) base)
    (hys : ∀ y ∈ ys, elapsed (key x) base < elapsed (key y) base) :
    Window key base n (xs ++ x :: ys) where
  sorted := by
    obtain ⟨hleft, hright, hcross⟩ := List.pairwise_append.mp h.sorted
    refine List.pairwise_append.mpr ⟨hleft, List.pairwise_cons.mpr ⟨hys, hright⟩, ?_⟩
    intro a ha b hb
    rcases List.mem_cons.mp hb with rfl | hb
    · exact hxs a ha
    · exact hcross a ha b hb
  within y hy := by
    rcases List.mem_append.mp hy with hy | hy
    · exact h.within y (List.mem_append_left _ hy)
    · rcases List.mem_cons.mp hy with rfl | hy
      · exact hx
      · exact h.within y (List.mem_append_right _ hy)

/-- The next number goes to the end. -/
theorem concat (h : Window key base n xs) (hx : elapsed (key x) base = n) :
    Window key base (n + 1) (xs ++ [x]) := by
  refine @insert _ _ key base (n + 1) x xs [] (by simpa using h.mono (Nat.le_succ n)) (by omega)
    (fun y hy ↦ hx ▸ h.within y hy) fun y hy ↦ absurd hy List.not_mem_nil

theorem of_map {f : β → α} {zs : List β} (h : Window key base n (zs.map f)) :
    Window (fun z ↦ key (f z)) base n zs where
  sorted := by
    have hsorted := h.sorted
    rwa [List.pairwise_map] at hsorted
  within z hz := h.within _ (List.mem_map_of_mem hz)

end Window

end Serial
