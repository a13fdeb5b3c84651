import Mathlib.Tactic.Linarith

/-!
# Pacing by a moving deadline

An action is to be taken about once in every period, by somebody who looks at the clock at times he
cannot choose. He keeps a deadline and acts when he finds it past. Acting moves the deadline on by
one period; but if it would then still lie in the past, it starts afresh one period from now.

Times are true times, and never wrap. Two facts hold however irregular the looks are. The deadline is
never more than a period after the last action, so a look that late always acts (`Paced.prompt`). And
over a stretch of several actions the rate is kept: with `n` actions strictly between two of them,
these are more than `n` periods apart (`Paced.spaced`), though two successive ones may be closer
together than a period.
-/

namespace Pacing

variable {period : ℕ}

/-- The deadline after an action at time `t`. -/
def next (period due t : ℕ) : ℕ := if t < due + period then due + period else t + period

theorem lt_next {due t : ℕ} (hperiod : 0 < period) : t < next period due t := by
  rw [next]
  split_ifs <;> omega

theorem next_le {due t : ℕ} (h : due ≤ t) : next period due t ≤ t + period := by
  rw [next]
  split_ifs <;> omega

theorem add_le_next (due t : ℕ) : due + period ≤ next period due t := by
  rw [next]
  split_ifs <;> omega

/-- The actions taken so far, the latest first, and the deadline that came of them. -/
structure Paced (period : ℕ) (fired : List ℕ) (due : ℕ) : Prop where
  /-- The deadline lies after the last action, by no more than a period. -/
  near : ∀ last ∈ fired.head?, last < due ∧ due ≤ last + period
  /-- Every action that was taken has pushed the deadline on. -/
  owed : ∀ i t, fired[i]? = some t → t + period * i < due
  spaced : ∀ i j t u, i < j → fired[i]? = some t → fired[j]? = some u →
    u + period * (j - i - 1) < t

namespace Paced

variable {fired : List ℕ} {due t : ℕ}

/-- The first action. -/
theorem first (hperiod : 0 < period) (t : ℕ) : Paced period [t] (t + period) where
  near last hlast := by
    obtain rfl := Option.some.inj hlast
    omega
  owed i u hu := by
    obtain ⟨hi, rfl⟩ := List.getElem?_eq_some_iff.mp hu
    obtain rfl : i = 0 := by simpa using hi
    simpa using hperiod
  spaced i j _ u hij _ hu := by
    obtain ⟨hj, -⟩ := List.getElem?_eq_some_iff.mp hu
    simp at hj
    omega

/-- **An action at or after the deadline** keeps the pace. -/
theorem fire (h : Paced period fired due) (hperiod : 0 < period) (ht : due ≤ t) :
    Paced period (t :: fired) (next period due t) where
  near last hlast := by
    obtain rfl := Option.some.inj hlast
    exact ⟨lt_next hperiod, next_le ht⟩
  owed i u hu := by
    cases i with
    | zero =>
      obtain rfl := Option.some.inj hu
      exact lt_next hperiod
    | succ i =>
      have howed := h.owed i u hu
      have hnext := @add_le_next period due t
      rw [Nat.mul_succ]
      omega
  spaced i j u v hij hu hv := by
    obtain ⟨j, rfl⟩ := Nat.exists_eq_succ_of_ne_zero (Nat.ne_of_gt (Nat.zero_lt_of_lt hij))
    cases i with
    | zero =>
      obtain rfl := Option.some.inj hu
      exact (h.owed j v hv).trans_le ht
    | succ i =>
      have hspaced := h.spaced i j u v (Nat.lt_of_succ_lt_succ hij) hu hv
      rwa [Nat.succ_sub_succ]

/-- Whoever looks a period after the last action finds the deadline past. -/
theorem prompt (h : Paced period fired due) {last : ℕ} (hlast : last ∈ fired.head?)
    (ht : last + period ≤ t) : due ≤ t := (h.near last hlast).2.trans ht

end Paced
end Pacing
