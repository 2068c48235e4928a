import ShaderBench.Number.Decimal
/-
The order of single-precision numbers, and which results of arithmetic are no numbers.
-/
namespace ShaderBench.Single
open Number

theorem signBit_eq : signBit = 2147483648 := rfl

theorem infinity_eq : Format.binary32.infinity = 2139095040 := rfl

theorem pattern_lt (x : Single) : x.pattern < signBit := Nat.mod_lt _ (by decide)

section OfPattern
variable {n : Nat}

theorem bits_ofPattern (small : n < signBit) (negative : Bool) :
    (ofPattern negative n).bits.toNat = if negative then n + signBit else n := by
  rw [signBit_eq] at small ⊢
  rw [ofPattern, UInt32.toNat_ofNat', signBit_eq]
  apply Nat.mod_eq_of_lt
  split <;> omega

theorem pattern_ofPattern (small : n < signBit) (negative : Bool) :
    (ofPattern negative n).pattern = n := by
  rw [pattern, bits_ofPattern small]
  rw [signBit_eq] at small ⊢
  split <;> omega

theorem isNegative_ofPattern (small : n < signBit) (negative : Bool) :
    (ofPattern negative n).isNegative = negative := by
  rw [isNegative, bits_ofPattern small]
  rw [signBit_eq] at small ⊢
  cases negative
  · exact decide_eq_false (by simpa using small)
  · exact decide_eq_true (Nat.le_add_left _ _)

end OfPattern

theorem ofPattern_own (x : Single) : ofPattern x.isNegative x.pattern = x := by
  have bound : x.bits.toNat < 4294967296 := x.bits.toNat_lt
  have same : (ofPattern x.isNegative x.pattern).bits.toNat = x.bits.toNat := by
    rw [bits_ofPattern x.pattern_lt, pattern, isNegative, signBit_eq]
    by_cases negative : 2147483648 ≤ x.bits.toNat
    · rw [if_pos (decide_eq_true negative)]
      omega
    · rw [if_neg (by simpa using negative)]
      omega
  obtain ⟨bits⟩ := x
  exact congrArg Single.mk (UInt32.toNat_inj.mp same)

theorem isNaN_ofPattern {n : Nat} (bound : n ≤ Format.binary32.infinity) (negative : Bool) :
    (ofPattern negative n).isNaN = false := by
  have small : n < signBit := Nat.lt_of_le_of_lt bound (by decide)
  rw [isNaN, pattern_ofPattern small]
  exact decide_eq_false (Nat.not_lt.mpr bound)

theorem round_le (q : Quotient) : Format.binary32.round q ≤ Format.binary32.infinity := by
  unfold Format.round
  split
  · exact Nat.zero_le _
  · exact Nat.min_le_left _ _

theorem isNaN_ofQuotient (negative : Bool) (q : Quotient) :
    (ofQuotient negative q).isNaN = false :=
  isNaN_ofPattern (round_le q) negative

theorem isNegative_ofQuotient (negative : Bool) (q : Quotient) :
    (ofQuotient negative q).isNegative = negative :=
  isNegative_ofPattern (Nat.lt_of_le_of_lt (round_le q) (by decide)) negative

theorem isNaN_ofUnits (negativeZero : Bool) (n : Int) : (ofUnits negativeZero n).isNaN = false := by
  unfold ofUnits
  split
  · exact isNaN_ofPattern (Nat.zero_le _) negativeZero
  · exact isNaN_ofQuotient _ _

theorem isNegative_ofUnits {n : Int} (least : 0 ≤ n) : (ofUnits false n).isNegative = false := by
  unfold ofUnits
  split
  · exact isNegative_ofPattern (by decide) false
  · rw [isNegative_ofQuotient]
    exact decide_eq_false (Int.not_lt.mpr least)

section Order
variable {x y z lo hi : Single}

theorem le_iff : x.le y ↔ x.isNaN = false ∧ y.isNaN = false ∧ x.rank ≤ y.rank := by
  simp [le, and_assoc]

theorem lt_iff : x.lt y ↔ x.isNaN = false ∧ y.isNaN = false ∧ x.rank < y.rank := by
  simp [lt, and_assoc]

theorem le_refl (number : x.isNaN = false) : x.le x :=
  le_iff.mpr ⟨number, number, Int.le_refl _⟩

theorem le_trans (first : x.le y) (second : y.le z) : x.le z := by
  rw [le_iff] at first second ⊢
  exact ⟨first.1, second.2.1, Int.le_trans first.2.2 second.2.2⟩

theorem le_of_lt (less : x.lt y) : x.le y := by
  rw [lt_iff] at less
  exact le_iff.mpr ⟨less.1, less.2.1, Int.le_of_lt less.2.2⟩

theorem le_of_not_lt (number : x.isNaN = false) (number' : y.isNaN = false) (not : ¬ y.lt x) :
    x.le y := by
  rw [lt_iff] at not
  refine le_iff.mpr ⟨number, number', Int.not_lt.mp fun less => not ⟨number', number, less⟩⟩

theorem min_le (number : x.isNaN = false) (number' : y.isNaN = false) :
    (x.min y).le x ∧ (x.min y).le y := by
  rw [min, number, if_neg Bool.false_ne_true]
  split
  · rename_i less
    exact ⟨le_of_lt less, le_refl number'⟩
  · rename_i not
    exact ⟨le_refl number, le_of_not_lt number number' not⟩

theorem le_max (number : x.isNaN = false) (number' : y.isNaN = false) :
    x.le (x.max y) ∧ y.le (x.max y) := by
  rw [max, number, if_neg Bool.false_ne_true]
  split
  · rename_i less
    exact ⟨le_of_lt less, le_refl number'⟩
  · rename_i not
    exact ⟨le_refl number, le_of_not_lt number' number not⟩

theorem clamp?_between (order : lo.le hi) (number : x.isNaN = false) :
    ∃ y, x.clamp? lo hi = some y ∧ lo.le y ∧ y.le hi := by
  obtain ⟨low, high, _⟩ := le_iff.mp order
  rw [clamp?, if_pos order]
  by_cases below : x.lt lo
  · exact ⟨lo, by rw [if_pos below], le_refl low, order⟩
  · by_cases above : hi.lt x
    · exact ⟨hi, by rw [if_neg below, if_pos above], order, le_refl high⟩
    · exact ⟨x, by rw [if_neg below, if_neg above], le_of_not_lt low number below,
        le_of_not_lt number high above⟩

theorem clamp?_nan (order : lo.le hi) (nan : x.isNaN) : x.clamp? lo hi = some x := by
  have below : ¬ x.lt lo := fun less => by simp [(lt_iff.mp less).1] at nan
  have above : ¬ hi.lt x := fun less => by simp [(lt_iff.mp less).2.1] at nan
  rw [clamp?, if_pos order, if_neg below, if_neg above]

end Order

theorem not_negative {x : Single} (positive : 0 < x.rank) : x.isNegative = false := by
  cases negative : x.isNegative
  · rfl
  · rw [rank, if_pos negative] at positive
    omega

theorem infinite_cases {x : Single} (infinite : x.isInfinite) :
    x = if x.isNegative then -infinity else infinity := by
  have pattern : x.pattern = Format.binary32.infinity := of_decide_eq_true infinite
  have own := ofPattern_own x
  rw [pattern] at own
  cases negative : x.isNegative
  · rw [negative] at own
    exact own.symm
  · rw [negative] at own
    exact own.symm

theorem infinite_beyond {x : Single} (beyond : infinity.le x ∨ x.le (-infinity)) : x.isInfinite := by
  have top : infinity.rank = 2139095040 := by decide
  have bottom : (-infinity).rank = -2139095040 := by decide
  have number : x.isNaN = false := by
    rcases beyond with above | below
    · exact (le_iff.mp above).2.1
    · exact (le_iff.mp below).1
  have bound : x.pattern ≤ 2139095040 := Nat.not_lt.mp (of_decide_eq_false number)
  have rank : x.rank = if x.isNegative then -(x.pattern : Int) else x.pattern := rfl
  have least : 2139095040 ≤ x.pattern := by
    rcases beyond with above | below
    · have order := (le_iff.mp above).2.2
      split at rank <;> omega
    · have order := (le_iff.mp below).2.2
      split at rank <;> omega
  exact decide_eq_true (Nat.le_antisymm bound least)

section Arithmetic
variable (x y : Single)

theorem pattern_neg : (-x).pattern = x.pattern := pattern_ofPattern x.pattern_lt _

theorem isNegative_neg : (-x).isNegative = !x.isNegative := isNegative_ofPattern x.pattern_lt _

theorem isNaN_neg : (-x).isNaN = x.isNaN := by rw [isNaN, pattern_neg, isNaN]

theorem isInfinite_neg : (-x).isInfinite = x.isInfinite := by rw [isInfinite, pattern_neg, isInfinite]

/-- A sum is no number exactly if one of its terms is none or they are opposite infinities. -/
theorem isNaN_add : (x + y).isNaN =
    (x.isNaN || y.isNaN || (x.isInfinite && y.isInfinite && x.isNegative != y.isNegative)) := by
  change (add x y).isNaN = _
  have nan : Single.nan.isNaN = true := by decide
  unfold add
  cases number : x.isNaN
  · cases number' : y.isNaN
    · cases infinite : x.isInfinite
      · cases infinite' : y.isInfinite
        · simp [isNaN_ofUnits]
        · simp [number']
      · cases infinite' : y.isInfinite
        · simp [number]
        · cases opposite : x.isNegative != y.isNegative
          · simp [number]
          · simp [nan]
    · simp [nan]
  · simp [nan]

end Arithmetic

theorem negative_of_infinite {x : Single} (infinite : x.isInfinite) (nonpos : x.rank ≤ 0) :
    x.isNegative = true := by
  have pattern : x.pattern = Format.binary32.infinity := of_decide_eq_true infinite
  rw [infinity_eq] at pattern
  cases negative : x.isNegative
  · rw [rank, negative, if_neg Bool.false_ne_true] at nonpos
    omega
  · rfl

theorem units_nonneg {x : Single} (positive : x.isNegative = false) : 0 ≤ x.units := by
  unfold units
  rw [positive, if_neg Bool.false_ne_true]
  exact Int.mul_nonneg (Int.natCast_nonneg _) (Int.natCast_nonneg _)

theorem units_zero {x : Single} (zero : x.pattern = 0) : x.units = 0 := by
  unfold units magnitude Format.magnitude
  rw [zero]
  simp

theorem sub_around_zero {high low : Single} (number : high.isNaN = false)
    (number' : low.isNaN = false) (above : 0 < high.rank) (below : low.rank ≤ 0) :
    (high - low).isNaN = false ∧ (high - low).isNegative = false ∧
      (high.isInfinite ∨ low.isInfinite → (high - low).isInfinite) := by
  have difference : high - low = add high (-low) := rfl
  have positive : high.isNegative = false := not_negative above
  have numeric : (-low).isNaN = false := (isNaN_neg low).trans number'
  rw [difference, ← isInfinite_neg low]
  -- An infinite end on the low side is negative, so its opposite is not.
  have opposite : (-low).isInfinite → (-low).isNegative = false := by
    intro infinite
    rw [isNegative_neg, negative_of_infinite ((isInfinite_neg low).symm.trans infinite) below]
    rfl
  have least : 0 ≤ (-low).units := by
    cases negative : low.isNegative
    · have pattern : low.pattern = 0 := by
        rw [rank, negative, if_neg Bool.false_ne_true] at below
        omega
      exact Int.le_of_eq (units_zero ((pattern_neg low).trans pattern)).symm
    · exact units_nonneg ((isNegative_neg low).trans (by rw [negative]; rfl))
  unfold add
  simp only [number, numeric, Bool.or_false, if_false, Bool.false_eq_true]
  cases infinite : high.isInfinite
  · cases infinite' : (-low).isInfinite
    · simp only [if_false, Bool.false_eq_true, or_false, positive, Bool.false_and]
      have sum : 0 ≤ high.units + (-low).units := Int.add_nonneg (units_nonneg positive) least
      exact ⟨isNaN_ofUnits _ _, isNegative_ofUnits sum, nofun⟩
    · simp only [if_false, if_true, Bool.false_eq_true]
      exact ⟨numeric, opposite infinite', fun _ => infinite'⟩
  · have same : ((-low).isInfinite && high.isNegative != (-low).isNegative) = false := by
      cases infinite' : (-low).isInfinite
      · rfl
      · rw [positive, opposite infinite']
        rfl
    simp only [same, if_true, if_false, Bool.false_eq_true]
    exact ⟨number, positive, fun _ => infinite⟩

/-- A positive finite factor keeps numbers, signs and infinities. -/
theorem mul_factor {x y : Single} (number : x.isNaN = false) (number' : y.isNaN = false)
    (finite : y.isInfinite = false) (nonzero : y.isZero = false) (positive : y.isNegative = false) :
    (x * y).isNaN = false ∧ (x * y).isNegative = x.isNegative ∧
      (x.isInfinite → (x * y).isInfinite) := by
  have product : x * y = mul x y := rfl
  have sign : (x.isNegative != y.isNegative) = x.isNegative := by rw [positive, Bool.bne_false]
  rw [product, mul]
  simp only [number, number', finite, nonzero, Bool.or_false, if_false, sign, Bool.false_eq_true]
  cases infinite : x.isInfinite
  · simp only [if_false, Bool.false_eq_true]
    exact ⟨isNaN_ofQuotient _ _, isNegative_ofQuotient _ _, nofun⟩
  · have nonzero' : x.isZero = false := by
      have pattern : x.pattern = Format.binary32.infinity := of_decide_eq_true infinite
      rw [isZero, pattern]
      decide
    simp only [if_true, nonzero', if_false, Bool.false_eq_true]
    refine ⟨isNaN_ofPattern (Nat.le_refl _) _, isNegative_ofPattern (by decide) _, fun _ => ?_⟩
    rw [isInfinite, pattern_ofPattern (by decide)]
    exact decide_eq_true rfl

theorem isNaN_nearest (digits : Nat) (exponent : Int) : (nearest digits exponent).isNaN = false := by
  unfold nearest
  simp only
  split
  · decide
  · split
    · decide
    · exact isNaN_ofQuotient _ _

theorem isNaN_read? {text : List Char} {x : Single} (read : read? text = some x) :
    x.isNaN = false := by
  unfold read? at read
  extract_lets whole afterWhole at read
  split at read
  rename_i fraction rest _
  extract_lets finish go at read
  have finished : ∀ exponent, finish exponent = some x → x.isNaN = false := by
    rintro exponent ⟨⟩
    exact isNaN_nearest _ _
  split at read
  · cases read
  · simp only [go] at read
    split at read
    · exact finished 0 read
    · split at read
      · obtain ⟨exponent, _, made⟩ := Option.bind_eq_some_iff.mp read
        exact finished exponent made
      · cases read

end ShaderBench.Single
