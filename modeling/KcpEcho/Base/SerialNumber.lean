import Mathlib.Data.Int.ModEq
import Mathlib.Tactic.NormNum
import Mathlib.Tactic.Ring
import Mathlib.Tactic.Linarith

/-!
# Serial number arithmetic

A `w`-bit counter that is only ever incremented names an unbounded sequence of true numbers by
their residues modulo `2 ^ w`. Two residues are compared through the signed value of their
difference, and the comparison agrees with the order of the true numbers exactly as long as these
lie less than half the range apart. The unsigned value of the difference measures how far a counter
has come since an earlier reading, up to whole turns of it.

Everything here is stated for true numbers `a b : ℕ` and the residues `BitVec.ofNat w a`,
`BitVec.ofNat w b`, so that a proof about a wrapping counter can carry the true number next to the
counter and never reason about the wrap itself.
-/

namespace Serial

variable {w : ℕ}

/-- The signed distance from `earlier` to `later`. -/
def diff (later earlier : BitVec w) : ℤ := (later - earlier).toInt

/-- Two true numbers a residue comparison can tell apart: less than `r` from each other. -/
def Near (r a b : ℕ) : Prop := a < b + r ∧ b < a + r

theorem Near.symm {r a b : ℕ} (h : Near r a b) : Near r b a := ⟨h.2, h.1⟩

theorem Near.mono {r r' a b : ℕ} (h : Near r a b) (hr : r ≤ r') : Near r' a b :=
  ⟨by have := h.1; omega, by have := h.2; omega⟩

theorem ofNat_sub_ofNat (a b : ℕ) :
    BitVec.ofNat w a - BitVec.ofNat w b = BitVec.ofInt w ((a : ℤ) - b) := by
  rw [← BitVec.ofInt_natCast, ← BitVec.ofInt_natCast]
  apply BitVec.eq_of_toInt_eq
  rw [BitVec.toInt_sub, BitVec.toInt_ofInt, BitVec.toInt_ofInt, BitVec.toInt_ofInt,
    Int.sub_bmod_bmod, Int.bmod_sub_bmod]

/-- **Exactness.** Within half the range the signed distance of the residues is the distance of
the true numbers. -/
theorem diff_ofNat {a b : ℕ} (h : Near (2 ^ w) a b) :
    diff (BitVec.ofNat (w + 1) a) (BitVec.ofNat (w + 1) b) = (a : ℤ) - b := by
  obtain ⟨hab, hba⟩ := h
  have hpow : (2 : ℕ) ^ (w + 1) = 2 * 2 ^ w := by rw [pow_succ]; ring
  rw [diff, ofNat_sub_ofNat, BitVec.toInt_ofInt, hpow]
  generalize 2 ^ w = r at hab hba
  refine Int.bmod_eq_of_le ?_ ?_ <;> push_cast <;> omega

/-- How far the counter has come from `earlier` to `later`, as its residues show it. -/
def elapsed (later earlier : BitVec w) : ℕ := (later - earlier).toNat

theorem elapsed_ofNat {a b : ℕ} (h : b ≤ a) :
    elapsed (BitVec.ofNat w a) (BitVec.ofNat w b) = (a - b) % 2 ^ w := by
  have hsub : (a : ℤ) - b = (a - b : ℕ) := by omega
  rw [elapsed, ofNat_sub_ofNat, hsub, BitVec.ofInt_natCast, BitVec.toNat_ofNat]

theorem ofNat_inj {a b : ℕ} (h : Near (2 ^ w) a b) :
    BitVec.ofNat w a = BitVec.ofNat w b ↔ a = b := by
  obtain ⟨hab, hba⟩ := h
  refine ⟨?_, fun heq ↦ by rw [heq]⟩
  intro heq
  have hmod : a % 2 ^ w = b % 2 ^ w := by
    have := congrArg BitVec.toNat heq
    simpa using this
  rcases le_total a b with hle | hle
  · have h0 := (Nat.modEq_iff_dvd' hle).mp hmod
    have := Nat.eq_zero_of_dvd_of_lt h0 (by omega)
    omega
  · have h0 := (Nat.modEq_iff_dvd' hle).mp hmod.symm
    have := Nat.eq_zero_of_dvd_of_lt h0 (by omega)
    omega

/-! ## Seen from a base

A few numbers that are all ahead of a common base are best compared through how far ahead they
are. -/

theorem elapsed_lt (a base : BitVec w) : elapsed a base < 2 ^ w := BitVec.isLt _

@[simp] theorem elapsed_self (base : BitVec w) : elapsed base base = 0 := by
  rw [elapsed, BitVec.sub_self]
  rfl

/-- A residue is its base and its distance from it. -/
theorem ofNat_add_elapsed (a base : BitVec w) :
    BitVec.ofNat w (base.toNat + elapsed a base) = a := by
  apply BitVec.eq_of_toNat_eq
  have ha := a.isLt
  have hbase := base.isLt
  rw [elapsed, BitVec.toNat_sub, BitVec.toNat_ofNat, Nat.add_mod_mod]
  have hsum : base.toNat + (2 ^ w - base.toNat + a.toNat) = a.toNat + 2 ^ w := by omega
  rw [hsum, Nat.add_mod_right, Nat.mod_eq_of_lt ha]

theorem elapsed_inj {a b base : BitVec w} : elapsed a base = elapsed b base ↔ a = b := by
  refine ⟨fun h ↦ ?_, fun h ↦ by rw [h]⟩
  rw [← ofNat_add_elapsed a base, ← ofNat_add_elapsed b base, h]

/-- **Exactness, from a base.** -/
theorem diff_of_elapsed {a b base : BitVec (w + 1)}
    (h : Near (2 ^ w) (elapsed a base) (elapsed b base)) :
    diff a b = (elapsed a base : ℤ) - elapsed b base := by
  have hnear : Near (2 ^ w) (base.toNat + elapsed a base) (base.toNat + elapsed b base) :=
    ⟨by have := h.1; omega, by have := h.2; omega⟩
  have hdiff := diff_ofNat hnear
  rw [ofNat_add_elapsed, ofNat_add_elapsed] at hdiff
  rw [hdiff]
  push_cast
  ring

theorem diff_eq_elapsed (a b : BitVec w) :
    diff a b = if 2 * elapsed a b < 2 ^ w then (elapsed a b : ℤ) else elapsed a b - 2 ^ w := by
  rw [diff, BitVec.toInt_eq_toNat_cond]
  push_cast
  rfl

/-- Ahead of a common base, and by less than half the range, the sign of the distance is the
order. -/
theorem diff_neg_iff {a b base : BitVec (w + 1)} (ha : elapsed a base < 2 ^ w)
    (hb : elapsed b base < 2 ^ w) : diff a b < 0 ↔ elapsed a base < elapsed b base := by
  have hdiff := @diff_of_elapsed w a b base ⟨by omega, by omega⟩
  omega

/-- A number is in a window no larger than half the range exactly if it is not behind its start and
behind its end. -/
theorem elapsed_lt_iff {a base stop : BitVec (w + 1)} (hstop : elapsed stop base < 2 ^ w) :
    elapsed a base < elapsed stop base ↔ 0 ≤ diff a base ∧ diff a stop < 0 := by
  have hhalf : 0 ≤ diff a base ↔ elapsed a base < 2 ^ w := by
    have hdiff := diff_eq_elapsed a base
    have hlt := elapsed_lt a base
    have hcast : ((2 ^ w : ℕ) : ℤ) = 2 ^ w := by push_cast; rfl
    rw [pow_succ] at hdiff hlt
    rw [pow_succ] at hdiff
    split_ifs at hdiff <;> omega
  constructor
  · intro ha
    exact ⟨hhalf.mpr (ha.trans hstop), (diff_neg_iff (ha.trans hstop) hstop).mpr ha⟩
  · rintro ⟨hnonneg, hneg⟩
    exact (diff_neg_iff (hhalf.mp hnonneg) hstop).mp hneg

/-- There and back is a whole turn. -/
theorem elapsed_swap {a b : BitVec w} (h : a ≠ b) : elapsed b a = 2 ^ w - elapsed a b := by
  have hne : elapsed a b ≠ 0 := by
    intro hzero
    exact h ((@elapsed_inj w a b b).mp (hzero.trans (elapsed_self b).symm))
  have hneg : b - a = -(a - b) := by
    rw [BitVec.neg_sub, BitVec.sub_eq_add_neg, BitVec.add_comm]
  have hlt := elapsed_lt a b
  rw [elapsed, hneg, BitVec.toNat_neg]
  exact Nat.mod_eq_of_lt (by rw [elapsed] at hne hlt; omega)

theorem elapsed_rebase {a b base : BitVec w} (h : elapsed b base ≤ elapsed a base) :
    elapsed a b = elapsed a base - elapsed b base := by
  have hle : base.toNat + elapsed b base ≤ base.toNat + elapsed a base := by omega
  have hlt := elapsed_lt a base
  have helapsed := @elapsed_ofNat w _ _ hle
  rw [ofNat_add_elapsed, ofNat_add_elapsed] at helapsed
  rw [helapsed, Nat.mod_eq_of_lt (by omega)]
  omega

theorem elapsed_add (a base : BitVec w) (n : ℕ) :
    elapsed (a + BitVec.ofNat w n) base = (elapsed a base + n) % 2 ^ w := by
  have hsum : a + BitVec.ofNat w n - base = (a - base) + BitVec.ofNat w n := by
    rw [BitVec.sub_eq_add_neg, BitVec.sub_eq_add_neg, BitVec.add_assoc, BitVec.add_assoc,
      BitVec.add_comm (BitVec.ofNat w n)]
  rw [elapsed, hsum, BitVec.toNat_add, BitVec.toNat_ofNat, Nat.add_mod_mod]
  rfl

end Serial
