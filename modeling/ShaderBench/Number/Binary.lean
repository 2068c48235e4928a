/-
Binary floating-point formats: what a bit pattern stands for, and which pattern is nearest to an
exact quotient of naturals. Every arithmetic operation is the exact result rounded once.
-/
namespace ShaderBench.Number

structure Format where
  precision : Nat
  exponentBits : Nat
  deriving DecidableEq, Repr

def Format.binary32 : Format := ⟨24, 8⟩
def Format.binary64 : Format := ⟨53, 11⟩

def Format.leastExponent (f : Format) : Int :=
  3 - Nat.pow 2 (f.exponentBits - 1) - f.precision

def Format.binade (f : Format) : Nat := Nat.pow 2 (f.precision - 1)

def Format.infinity (f : Format) : Nat := (Nat.pow 2 f.exponentBits - 1) * f.binade

/-- A finite magnitude, significand * 2^exponent. -/
structure Magnitude where
  significand : Nat
  exponent : Int
  deriving DecidableEq, Repr

def Format.magnitude (f : Format) (pattern : Nat) : Magnitude :=
  let field := pattern / f.binade
  if field = 0 then ⟨pattern, f.leastExponent⟩
  else ⟨f.binade + pattern % f.binade, f.leastExponent + field - 1⟩

structure Quotient where
  num : Nat
  den : Nat
  deriving DecidableEq, Repr

def Magnitude.quotient (x : Magnitude) : Quotient :=
  ⟨x.significand * Nat.pow 2 x.exponent.toNat, Nat.pow 2 (-x.exponent).toNat⟩

inductive Tie where
  | toEven
  | away
  deriving DecidableEq, Repr

def Quotient.round (x : Quotient) (tie : Tie) : Nat :=
  let q := x.num / x.den
  let r := x.num % x.den
  if 2 * r < x.den then q
  else if x.den < 2 * r then q + 1
  else match tie with
    | .away => q + 1
    | .toEven => if q % 2 = 0 then q else q + 1

def Quotient.inUnits (x : Quotient) (exponent : Int) : Quotient :=
  ⟨x.num * Nat.pow 2 (-exponent).toNat, x.den * Nat.pow 2 exponent.toNat⟩

/-- The exponent of the last place that a quotient has in a format: its significand there is below
    2^precision, and at least half of that unless the exponent is the least one. -/
def Format.placeExponent (f : Format) (x : Quotient) : Int :=
  let estimate := max f.leastExponent ((Nat.log2 x.num : Int) - Nat.log2 x.den - f.precision)
  let units := x.inUnits estimate
  if units.num / units.den < Nat.pow 2 f.precision then estimate else estimate + 1

/-- The pattern, without sign, nearest to a quotient; a tie goes to the even one, and what lies
    past the largest finite value is infinite. -/
def Format.round (f : Format) (x : Quotient) : Nat :=
  if x.num = 0 then 0
  else
    let e := f.placeExponent x
    min f.infinity ((e - f.leastExponent).toNat * f.binade + (x.inUnits e).round .toEven)

def Format.nearest (f : Format) (x : Quotient) : Quotient := (f.magnitude (f.round x)).quotient

/-- The quotient digits * 10^exponent. -/
def Quotient.ofDecimal (digits : Nat) (exponent : Int) : Quotient :=
  ⟨digits * Nat.pow 10 exponent.toNat, Nat.pow 10 (-exponent).toNat⟩

end ShaderBench.Number
