import Mathlib.Algebra.Order.Ring.Rat
import Mathlib.Algebra.Order.Field.Basic
import Mathlib.Tactic.Linarith
import ShaderBench.Proofs.Number.Order
/-
Numbers as integers: the value of a finite number, the integer nearest to it, and what is left of
that between two bounds.
-/
namespace ShaderBench
open Number

def Number.Quotient.value (x : Quotient) : ℚ := x.num / x.den

def Single.value (x : Single) : ℚ :=
  if x.isNegative then -x.magnitude.quotient.value else x.magnitude.quotient.value

/-- No integer is nearer, and of two that are as near it is the one away from zero. -/
structure Nearest (q : ℚ) (n : ℤ) : Prop where
  near : |q - n| ≤ 1 / 2
  away : |q - n| = 1 / 2 → |q| < |n|

theorem Nearest.neg {q : ℚ} {n : ℤ} (nearest : Nearest q n) : Nearest (-q) (-n) := by
  have distance : |(-q) - ((-n : ℤ) : ℚ)| = |q - n| := by
    rw [Int.cast_neg, ← neg_sub', abs_neg]
  constructor
  · rw [distance]
    exact nearest.near
  · rw [distance, abs_neg, abs_neg]
    exact nearest.away

theorem nearest_down {part : ℚ} (least : 0 ≤ part) (less : part < 1 / 2) (n : ℕ) :
    Nearest (n + part) n := by
  have distance : |(n : ℚ) + part - (n : ℤ)| = part := by
    rw [Int.cast_natCast, add_sub_cancel_left, abs_of_nonneg least]
  constructor
  · rw [distance]
    exact le_of_lt less
  · rw [distance]
    intro same
    exact absurd same (ne_of_lt less)

theorem nearest_up {part : ℚ} (half : 1 / 2 ≤ part) (less : part < 1) (n : ℕ) :
    Nearest (n + part) (n + 1) := by
  have distance : |(n : ℚ) + part - ((n + 1 : ℤ) : ℚ)| = 1 - part := by
    rw [Int.cast_add, Int.cast_natCast, Int.cast_one, add_sub_add_left_eq_sub,
      abs_of_nonpos (by linarith), neg_sub]
  have natural : (0 : ℚ) ≤ n := Nat.cast_nonneg n
  constructor
  · rw [distance]
    linarith
  · intro _
    have next : |(n + 1 : ℤ)| = n + 1 := abs_of_nonneg (by omega)
    rw [next, abs_of_nonneg (by linarith), Int.cast_add, Int.cast_natCast, Int.cast_one]
    linarith

namespace Number.Quotient

theorem round_away (x : Quotient) :
    x.round .away = if 2 * (x.num % x.den) < x.den then x.num / x.den else x.num / x.den + 1 := by
  unfold round
  by_cases less : 2 * (x.num % x.den) < x.den
  · simp only [less, if_true]
  · simp only [less, if_false, ite_self]

theorem value_split {x : Quotient} (positive : 0 < x.den) :
    x.value = (x.num / x.den : ℕ) + (x.num % x.den : ℕ) / (x.den : ℚ) := by
  have den : (x.den : ℚ) ≠ 0 := Nat.cast_ne_zero.mpr (Nat.ne_of_gt positive)
  have split : (x.num : ℚ) = x.den * (x.num / x.den : ℕ) + (x.num % x.den : ℕ) := by
    exact_mod_cast (Nat.div_add_mod x.num x.den).symm
  rw [value, split, add_div, mul_div_cancel_left₀ _ den]

theorem nearest_round {x : Quotient} (positive : 0 < x.den) : Nearest x.value (x.round .away) := by
  have den : (0 : ℚ) < x.den := Nat.cast_pos.mpr positive
  have least : 0 ≤ (x.num % x.den : ℕ) / (x.den : ℚ) := div_nonneg (Nat.cast_nonneg _) den.le
  have below : (x.num % x.den : ℕ) / (x.den : ℚ) < 1 := by
    rw [div_lt_one den]
    exact_mod_cast Nat.mod_lt x.num positive
  have half : (x.num % x.den : ℕ) / (x.den : ℚ) < 1 / 2 ↔ 2 * (x.num % x.den) < x.den := by
    rw [div_lt_iff₀ den, ← Nat.cast_lt (α := ℚ), Nat.cast_mul, Nat.cast_ofNat]
    constructor <;> intro less <;> linarith
  rw [round_away, value_split positive]
  by_cases less : 2 * (x.num % x.den) < x.den
  · rw [if_pos less]
    exact nearest_down least (half.mpr less) _
  · rw [if_neg less]
    exact nearest_up (not_lt.mp (mt half.mp less)) below _

end Number.Quotient

namespace Single

theorem nearest_nearestInt (x : Single) : Nearest x.value x.nearestInt := by
  have positive : 0 < x.magnitude.quotient.den := Nat.pow_pos (by decide)
  have nearest := Quotient.nearest_round positive
  rw [value, nearestInt]
  by_cases negative : x.isNegative
  · rw [if_pos negative, if_pos negative]
    exact nearest.neg
  · rw [if_neg negative, if_neg negative]
    exact nearest

/-- The integer between two bounds that stands for a number: for finite numbers the nearest one or
    the bound that it is past, for infinities a bound, and zero for what is no number. -/
inductive Saturated (lo hi : ℤ) (x : Single) : ℤ → Prop where
  | nan (nan : x.isNaN) : Saturated lo hi x 0
  | low (infinite : x.isInfinite) (negative : x.isNegative) : Saturated lo hi x lo
  | high (infinite : x.isInfinite) (positive : x.isNegative = false) : Saturated lo hi x hi
  | finite {n : ℤ} (number : x.isNaN = false) (finite : x.isInfinite = false)
      (nearest : Nearest x.value n) : Saturated lo hi x (Max.max lo (Min.min hi n))

theorem saturated_roundInto (lo hi : ℤ) (x : Single) : Saturated lo hi x (x.roundInto lo hi) := by
  unfold roundInto
  cases nan : x.isNaN
  · cases infinite : x.isInfinite
    · exact .finite nan infinite x.nearest_nearestInt
    · cases negative : x.isNegative
      · exact .high infinite negative
      · exact .low infinite negative
  · exact .nan nan

theorem roundInto_bounds {lo hi : ℤ} (below : lo ≤ 0) (above : 0 ≤ hi) (x : Single) :
    lo ≤ x.roundInto lo hi ∧ x.roundInto lo hi ≤ hi := by
  unfold roundInto
  split
  · exact ⟨below, above⟩
  · split
    · split
      · exact ⟨Int.le_refl lo, below.trans above⟩
      · exact ⟨below.trans above, Int.le_refl hi⟩
    · omega

theorem roundInto_max_zero {hi : ℤ} (above : 0 ≤ hi) (x : Single) :
    (x.max zero).roundInto 0 hi = x.roundInto 0 hi := by
  have none : zero.roundInto 0 hi = 0 := by
    have nearest : zero.nearestInt = 0 := by decide
    have number : zero.isNaN = false := by decide
    have finite : zero.isInfinite = false := by decide
    rw [roundInto, number, finite, nearest]
    simp [above]
  unfold max
  by_cases nan : x.isNaN
  · rw [if_pos nan, none, roundInto, if_pos nan]
  · rw [if_neg nan]
    by_cases less : x.lt zero
    · have negative : x.isNegative = true := by
        have rank := (lt_iff.mp less).2.2
        have zero : zero.rank = 0 := by decide
        cases sign : x.isNegative
        · rw [Single.rank, sign, if_neg Bool.false_ne_true] at rank
          omega
        · rfl
      rw [if_pos less, none, roundInto, if_neg nan, negative]
      split
      · rfl
      · simp only [nearestInt, negative, if_true]
        omega
    · rw [if_neg less]

end Single
end ShaderBench
