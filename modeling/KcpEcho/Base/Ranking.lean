import KcpEcho.Base.Transition
import Mathlib.Order.Nat

/-!
# Systems whose runs come to an end

A rank is a natural number read off the state. If every step lowers it, no run is longer than the
rank it started at, and none goes on forever (`Lowers.add_rank_le`, `Lowers.not_forever`). If in
addition some step is possible wherever the system is not yet done, every state has a run that ends
where it is (`Lowers.exists_done`).
-/

namespace Lts

variable {σ ι : Type*} (M : Lts σ ι)

/-- `M.Steps s n s'`: a run of `n` steps leads from `s` to `s'`. -/
inductive Steps (s : σ) : ℕ → σ → Prop
  | zero : Steps s 0 s
  | succ {n : ℕ} {s' s'' : σ} {i : ι} : Steps s n s' → M.step s' i s'' → Steps s (n + 1) s''

/-- Every step lowers the rank. -/
def Lowers (rank : σ → ℕ) : Prop := ∀ s i s', M.step s i s' → rank s' < rank s

variable {M}

/-- A property that every step keeps holds wherever a run leads. -/
theorem Steps.keeps {I : σ → Prop} (hstep : ∀ s i s', I s → M.step s i s' → I s') {s s' : σ} {n : ℕ}
    (hs : I s) (h : M.Steps s n s') : I s' := by
  induction h with
  | zero => exact hs
  | succ _ hlast ih => exact hstep _ _ _ ih hlast

theorem Steps.head {s s' s'' : σ} {i : ι} {n : ℕ} (hfirst : M.step s i s')
    (h : M.Steps s' n s'') : M.Steps s (n + 1) s'' := by
  induction h with
  | zero => exact .succ .zero hfirst
  | succ _ hlast ih => exact .succ ih hlast

namespace Lowers

variable {rank : σ → ℕ}

/-- The rank pays for every step of a run. -/
theorem add_rank_le (h : M.Lowers rank) {s s' : σ} {n : ℕ} (hs : M.Steps s n s') :
    n + rank s' ≤ rank s := by
  induction hs with
  | zero => rw [Nat.zero_add]
  | succ _ hlast ih =>
    have hlt := h _ _ _ hlast
    omega

theorem length_le (h : M.Lowers rank) {s s' : σ} {n : ℕ} (hs : M.Steps s n s') : n ≤ rank s :=
  (Nat.le_add_right _ _).trans (h.add_rank_le hs)

/-- No run goes on forever. -/
theorem not_forever (h : M.Lowers rank) (run : ℕ → σ) :
    ¬∀ n, ∃ i, M.step (run n) i (run (n + 1)) := by
  intro hrun
  have hsteps : ∀ n, M.Steps (run 0) n (run n) := by
    intro n
    induction n with
    | zero => exact .zero
    | succ n ih =>
      obtain ⟨i, hstep⟩ := hrun n
      exact .succ ih hstep
  exact Nat.not_succ_le_self _ (h.length_le (hsteps (rank (run 0) + 1)))

/-- A system that can move wherever it is not done gets done. -/
theorem exists_done (h : M.Lowers rank) {I done : σ → Prop}
    (hmove : ∀ s, I s → ¬done s → ∃ i s', M.step s i s' ∧ I s') {s : σ} (hs : I s) :
    ∃ n s', M.Steps s n s' ∧ I s' ∧ done s' := by
  induction hrank : rank s using Nat.strong_induction_on generalizing s with
  | _ r ih =>
    by_cases hdone : done s
    · exact ⟨0, s, .zero, hs, hdone⟩
    · obtain ⟨i, s', hstep, hs'⟩ := hmove s hs hdone
      obtain ⟨n, s'', hsteps, hs'', hdone'⟩ := ih (rank s') (hrank ▸ h s i s' hstep) hs' rfl
      exact ⟨n + 1, s'', hsteps.head hstep, hs'', hdone'⟩

end Lowers
end Lts
