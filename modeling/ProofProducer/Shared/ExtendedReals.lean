import Mathlib.Analysis.SpecialFunctions.Log.Base
import Mathlib.Data.EReal.Basic
import Mathlib.Data.Int.Log

/-!
# Logarithms on the extended reals and conversions back to machine integers

The logarithm of zero is minus infinity. A conversion to an unsigned type drops the fraction and
is defined for the values that then are in the range of the type.
-/

namespace ExtendedReals

set_option autoImplicit false

/-- The binary logarithm of a number that is not negative. -/
noncomputable def log2 (x : ℝ) : EReal := if x = 0 then ⊥ else (Real.logb 2 x : ℝ)

/-- The least integer above; the infinities stay. -/
noncomputable def ceil (x : EReal) : EReal :=
  if x = ⊥ ∨ x = ⊤ then x else (⌈x.toReal⌉ : ℝ)

/-- Conversion to an unsigned type whose values are those below the bound. -/
noncomputable def toUnsigned (bound : ℕ) (x : EReal) : Option ℕ :=
  if x = ⊥ ∨ x = ⊤ then none
  else if -1 < x.toReal ∧ x.toReal < bound then some ⌊x.toReal⌋₊ else none

theorem log2_zero : log2 0 = ⊥ := if_pos rfl

theorem ceil_bot : ceil ⊥ = ⊥ := if_pos (Or.inl rfl)

theorem ceil_coe (r : ℝ) : ceil (r : EReal) = (⌈r⌉ : ℝ) := by
  have hfinite : ¬ ((r : EReal) = ⊥ ∨ (r : EReal) = ⊤) :=
    not_or.mpr ⟨EReal.coe_ne_bot r, EReal.coe_ne_top r⟩
  rw [ceil, if_neg hfinite, EReal.toReal_coe]

theorem toUnsigned_bot (bound : ℕ) : toUnsigned bound ⊥ = none := if_pos (Or.inl rfl)

theorem toUnsigned_coe (bound : ℕ) (r : ℝ) :
    toUnsigned bound (r : EReal) = if -1 < r ∧ r < bound then some ⌊r⌋₊ else none := by
  have hfinite : ¬ ((r : EReal) = ⊥ ∨ (r : EReal) = ⊤) :=
    not_or.mpr ⟨EReal.coe_ne_bot r, EReal.coe_ne_top r⟩
  rw [toUnsigned, if_neg hfinite, EReal.toReal_coe]

theorem toUnsigned_natCast {bound n : ℕ} (h : n < bound) :
    toUnsigned bound ((n : ℝ) : EReal) = some n := by
  have hlow : (-1 : ℝ) < n := by
    have hn : (0 : ℝ) ≤ n := Nat.cast_nonneg n
    linarith
  rw [toUnsigned_coe, if_pos ⟨hlow, Nat.cast_lt.mpr h⟩, Nat.floor_natCast]

/-- On the positive natural numbers the rounded logarithm is the exact one of the integers. -/
theorem ceil_log2_natCast {n : ℕ} (hn : n ≠ 0) :
    ceil (log2 n) = ((Nat.clog 2 n : ℝ) : EReal) := by
  have hpos : (n : ℝ) ≠ 0 := Nat.cast_ne_zero.mpr hn
  have hlog : (⌈Real.logb 2 n⌉ : ℤ) = (Nat.clog 2 n : ℤ) := by
    have h := Real.ceil_logb_natCast (b := 2) (Nat.cast_nonneg (α := ℝ) n)
    rw [Nat.cast_ofNat, Int.clog_natCast] at h
    exact h
  rw [log2, if_neg hpos, ceil_coe, hlog, Int.cast_natCast]

/-- The rounded logarithm is the least exponent of two that reaches the number. -/
theorem clog_isLeast (n : ℕ) : IsLeast {k | n ≤ 2 ^ k} (Nat.clog 2 n) := by
  constructor
  · exact Nat.le_pow_clog Nat.one_lt_two n
  · intro k hk
    exact Nat.clog_le_of_le_pow hk

end ExtendedReals
