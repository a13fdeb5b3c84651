import Mathlib.Logic.Relation

/-!
# Labelled transition systems and their invariants

Runs of a system are built from labelled steps; what holds of every run is proved by an inductive
invariant. Two forms of the induction are packaged here. `Inductive.reachable` is the plain one.
`Inductive.restrict` is for a property that survives only the steps meeting a condition: it holds
along every run all of whose steps meet it, and costs no second induction because such a run is a
run of the restricted system.
-/

/-- A labelled transition system. -/
structure Lts (σ ι : Type*) where
  /-- The states a run may start in. -/
  init : σ → Prop
  /-- `step s i s'`: in state `s` the event `i` may lead to `s'`. -/
  step : σ → ι → σ → Prop

namespace Lts

variable {σ ι : Type*} (M : Lts σ ι)

/-- The states some run ends in. -/
inductive Reachable : σ → Prop
  | init {s : σ} : M.init s → Reachable s
  | step {s s' : σ} {i : ι} : Reachable s → M.step s i s' → Reachable s'

/-- An inductive invariant: it holds initially and every step keeps it. -/
structure Inductive (I : σ → Prop) : Prop where
  init : ∀ s, M.init s → I s
  step : ∀ s i s', I s → M.step s i s' → I s'

variable {M}

theorem Inductive.reachable {I : σ → Prop} (h : M.Inductive I) {s : σ} (hs : M.Reachable s) :
    I s := by
  induction hs with
  | init h0 => exact h.init _ h0
  | step _ hstep ih => exact h.step _ _ _ ih hstep

/-- An invariant may be used while the next one is proved. -/
theorem Inductive.and {I J : σ → Prop} (hI : M.Inductive I)
    (h0 : ∀ s, M.init s → J s) (hstep : ∀ s i s', I s → J s → M.step s i s' → J s') :
    M.Inductive fun s ↦ I s ∧ J s where
  init s hs := ⟨hI.init s hs, h0 s hs⟩
  step s i s' h hs := ⟨hI.step s i s' h.1 hs, hstep s i s' h.1 h.2 hs⟩

variable (M)

/-- The system cut down to the steps that meet `C`. -/
def restrict (C : σ → ι → Prop) : Lts σ ι where
  init := M.init
  step s i s' := M.step s i s' ∧ C s i

variable {M}

/-- A run all of whose steps meet a condition is in particular a run. -/
theorem Reachable.of_restrict {C : σ → ι → Prop} {s : σ} (h : (M.restrict C).Reachable s) :
    M.Reachable s := by
  induction h with
  | init h0 => exact .init h0
  | step _ hstep ih => exact .step ih hstep.1

theorem Inductive.restrict {I : σ → Prop} (h : M.Inductive I) (C : σ → ι → Prop) :
    (M.restrict C).Inductive I where
  init := h.init
  step s i s' hs hstep := h.step s i s' hs hstep.1

end Lts
