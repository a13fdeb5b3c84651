import Mathlib.Order.Nat

/-!
# Loops that are left from the middle

`while (true)` around a body that returns. Such a loop has no bound of its own; what it has are
runs: a run lists the rounds it made and ends with the result the body returned. If every round
lowers a rank, the loop terminates wherever it starts (`exists_run`), after no more rounds than the
rank (`Run.length_le`).
-/

/-- A loop body. From a state it either returns, or makes a round, of which `ρ` is the record, and
goes on from the next state. -/
abbrev LoopBody (σ ρ τ : Type*) := σ → τ ⊕ ρ × σ

namespace LoopBody

variable {σ ρ τ : Type*} (body : LoopBody σ ρ τ)

/-- `body.Run s rounds t`: started in `s`, the loop makes these rounds and returns `t`. -/
inductive Run : σ → List ρ → τ → Prop
  | left {s : σ} {t : τ} : body s = .inl t → Run s [] t
  | round {s s' : σ} {r : ρ} {rounds : List ρ} {t : τ} :
      body s = .inr (r, s') → Run s' rounds t → Run s (r :: rounds) t

/-- Every round lowers the rank. -/
def Lowers (rank : σ → ℕ) : Prop := ∀ s r s', body s = .inr (r, s') → rank s' < rank s

variable {body} {rank : σ → ℕ}

theorem exists_run (h : body.Lowers rank) (s : σ) : ∃ rounds t, body.Run s rounds t := by
  induction hrank : rank s using Nat.strong_induction_on generalizing s with
  | _ n ih =>
    cases hbody : body s with
    | inl t => exact ⟨[], t, .left hbody⟩
    | inr next =>
      obtain ⟨r, s'⟩ := next
      have hlt : rank s' < n := hrank ▸ h s r s' hbody
      obtain ⟨rounds, t, hrun⟩ := ih (rank s') hlt s' rfl
      exact ⟨r :: rounds, t, .round hbody hrun⟩

theorem Run.length_le (h : body.Lowers rank) {s : σ} {rounds : List ρ} {t : τ}
    (hrun : body.Run s rounds t) : rounds.length ≤ rank s := by
  induction hrun with
  | left _ => exact Nat.zero_le _
  | round hround _ ih =>
    have hlt := h _ _ _ hround
    rw [List.length_cons]
    omega

end LoopBody
