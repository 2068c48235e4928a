import ShaderBench.Number.Binary
/-
Single-precision numbers. A value is its 32-bit pattern; order and arithmetic are defined on what
the pattern stands for, and a result is the exact one rounded once, to nearest and to even.
-/
namespace ShaderBench
open Number

structure Single where
  bits : UInt32
  deriving DecidableEq, Repr, Inhabited

namespace Single

def signBit : Nat := Nat.pow 2 31

def isNegative (x : Single) : Bool := signBit ≤ x.bits.toNat

def pattern (x : Single) : Nat := x.bits.toNat % signBit

def isNaN (x : Single) : Bool := Format.binary32.infinity < x.pattern
def isInfinite (x : Single) : Bool := x.pattern = Format.binary32.infinity
def isZero (x : Single) : Bool := x.pattern = 0

def ofPattern (negative : Bool) (pattern : Nat) : Single :=
  ⟨UInt32.ofNat (if negative then pattern + signBit else pattern)⟩

def zero : Single := ofPattern false 0
def infinity : Single := ofPattern false Format.binary32.infinity
def nan : Single := ofPattern false (Format.binary32.infinity + Nat.pow 2 22)

def magnitude (x : Single) : Magnitude := Format.binary32.magnitude x.pattern

def ofQuotient (negative : Bool) (x : Quotient) : Single :=
  ofPattern negative (Format.binary32.round x)

def ofNat (n : Nat) : Single := ofQuotient false ⟨n, 1⟩

def ofDecimal (digits : Nat) (exponent : Int) : Single :=
  ofQuotient false (Quotient.ofDecimal digits exponent)

def neg (x : Single) : Single := ofPattern (!x.isNegative) x.pattern

/-- Numbers in ascending order have ascending ranks, and the two zeros have one rank. -/
def rank (x : Single) : Int := if x.isNegative then -x.pattern else x.pattern

def lt (x y : Single) : Bool := !x.isNaN && !y.isNaN && x.rank < y.rank
def le (x y : Single) : Bool := !x.isNaN && !y.isNaN && x.rank ≤ y.rank

/-- Equality of numbers: the two zeros are equal, and what is no number equals nothing. -/
def same (x y : Single) : Bool := !x.isNaN && !y.isNaN && x.rank = y.rank

def min (x y : Single) : Single := if x.isNaN then y else if y.lt x then y else x

def max (x y : Single) : Single := if x.isNaN then y else if x.lt y then y else x

/-- The value brought between two bounds. There is no answer for bounds that are no numbers or
    not in order. -/
def clamp? (x lo hi : Single) : Option Single :=
  if lo.le hi then some (if x.lt lo then lo else if hi.lt x then hi else x) else none

def units (x : Single) : Int :=
  let n : Int := x.magnitude.significand *
    Nat.pow 2 (x.magnitude.exponent - Format.binary32.leastExponent).toNat
  if x.isNegative then -n else n

def ofUnits (negativeZero : Bool) (n : Int) : Single :=
  if n = 0 then ofPattern negativeZero 0
  else ofQuotient (n < 0) (Magnitude.quotient ⟨n.natAbs, Format.binary32.leastExponent⟩)

def add (x y : Single) : Single :=
  if x.isNaN || y.isNaN then nan
  else if x.isInfinite then
    if y.isInfinite && x.isNegative != y.isNegative then nan else x
  else if y.isInfinite then y
  else ofUnits (x.isNegative && y.isNegative) (x.units + y.units)

def sub (x y : Single) : Single := x.add y.neg

def mul (x y : Single) : Single :=
  let negative := x.isNegative != y.isNegative
  if x.isNaN || y.isNaN then nan
  else if x.isInfinite || y.isInfinite then
    if x.isZero || y.isZero then nan else ofPattern negative Format.binary32.infinity
  else
    let a := x.magnitude.quotient
    let b := y.magnitude.quotient
    ofQuotient negative ⟨a.num * b.num, a.den * b.den⟩

def div (x y : Single) : Single :=
  let negative := x.isNegative != y.isNegative
  if x.isNaN || y.isNaN then nan
  else if x.isInfinite then if y.isInfinite then nan else ofPattern negative Format.binary32.infinity
  else if y.isInfinite then ofPattern negative 0
  else if y.isZero then if x.isZero then nan else ofPattern negative Format.binary32.infinity
  else
    let a := x.magnitude.quotient
    let b := y.magnitude.quotient
    ofQuotient negative ⟨a.num * b.den, a.den * b.num⟩

instance : Neg Single := ⟨neg⟩
instance : Add Single := ⟨add⟩
instance : Sub Single := ⟨sub⟩
instance : Mul Single := ⟨mul⟩
instance : Div Single := ⟨div⟩

def nearestInt (x : Single) : Int :=
  let n := x.magnitude.quotient.round .away
  if x.isNegative then -n else n

/-- The nearest integer within bounds; what is no number counts as zero. -/
def roundInto (lo hi : Int) (x : Single) : Int :=
  if x.isNaN then 0
  else if x.isInfinite then if x.isNegative then lo else hi
  else Max.max lo (Min.min hi x.nearestInt)

def bytes (x : Single) : List UInt8 :=
  [x.bits.toUInt8, (x.bits >>> 8).toUInt8, (x.bits >>> 16).toUInt8, (x.bits >>> 24).toUInt8]

end Single
end ShaderBench
