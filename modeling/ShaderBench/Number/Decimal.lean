import ShaderBench.Number.Single
/-
Decimals for single-precision numbers: the fewest digits that read back, a fixed number of
places, the layout of digits as text, and reading.
-/
namespace ShaderBench.Number

structure Decimal where
  digits : Nat
  exponent : Int
  deriving DecidableEq, Repr

def Decimal.compareTo (d : Decimal) (n : Nat) (e : Int) : Ordering :=
  compare (d.digits * Nat.pow 10 d.exponent.toNat * Nat.pow 2 (-e).toNat)
    (n * Nat.pow 2 e.toNat * Nat.pow 10 (-d.exponent).toNat)

/-- Whether a decimal lies among the reals that round to a magnitude. Its interval ends halfway to
    the two neighbours and holds its ends if the significand is even; below a power of two the
    gap is half as wide. -/
def Magnitude.readsBack (f : Format) (x : Magnitude) (d : Decimal) : Bool :=
  let narrow := x.significand = f.binade && f.leastExponent < x.exponent
  let low := d.compareTo (4 * x.significand - if narrow then 1 else 2) (x.exponent - 2)
  let high := d.compareTo (4 * x.significand + 2) (x.exponent - 2)
  let closed := x.significand % 2 = 0
  (low == .gt || closed && low == .eq) && (high == .lt || closed && high == .eq)

def Magnitude.scale (x : Magnitude) (scales : List Int) : Int :=
  (scales.find? fun k => Decimal.compareTo ⟨1, k⟩ x.significand x.exponent == .gt).getD 0

/-- Of the magnitude's two neighbours among the multiples of 10^exponent, the nearer one that
    reads back. -/
def Magnitude.onGrid? (f : Format) (tie : Tie) (x : Magnitude) (exponent : Int) :
    Option Decimal :=
  let q := x.quotient
  let units := q.num * Nat.pow 10 (-exponent).toNat / (q.den * Nat.pow 10 exponent.toNat)
  let below : Decimal := ⟨units, exponent⟩
  let above : Decimal := ⟨below.digits + 1, exponent⟩
  let middle : Decimal := ⟨2 * below.digits + 1, exponent⟩
  match x.readsBack f below, x.readsBack f above with
  | false, false => none
  | true, false => some below
  | false, true => some above
  | true, true =>
    match middle.compareTo (2 * x.significand) x.exponent with
    | .gt => some below
    | .lt => some above
    | .eq => match tie with
      | .away => some above
      | .toEven => some (if below.digits % 2 = 0 then below else above)

def Decimal.stripFuel : Nat → Decimal → Decimal
  | 0, d => d
  | n + 1, d =>
    if d.digits ≠ 0 ∧ d.digits % 10 = 0 then stripFuel n ⟨d.digits / 10, d.exponent + 1⟩ else d

def Decimal.strip (d : Decimal) : Decimal := stripFuel d.digits.log2 d

/-- The fewest digits that read back to a nonzero single-precision magnitude, at most nine, and of
    those the nearest. -/
def Magnitude.shortest (tie : Tie) (x : Magnitude) : Decimal :=
  let top := x.scale ((List.range 90).map fun n => Int.ofNat n - 46)
  let found := (List.range 9).findSome? fun n => x.onGrid? .binary32 tie (top - Int.ofNat (n + 1))
  (found.getD ⟨x.quotient.num * Nat.pow 5 (-x.exponent).toNat, min 0 x.exponent⟩).strip

structure NumberStyle where
  /-- Exponents of the leading digit from here on are written positionally, -/
  plainFrom : Option Int
  /-- up to this one. -/
  plainUpTo : Option Int
  pointZero : Bool
  exponentPlus : Bool
  tie : Tie
  deriving DecidableEq, Repr

def NumberStyle.display : NumberStyle := ⟨none, none, false, false, .away⟩

def NumberStyle.detailed : NumberStyle := ⟨some (-4), some 15, true, false, .away⟩

def digitsOf (n : Nat) : List Char := (Nat.toDigits 10 n)

def zeros (n : Nat) : List Char := List.replicate n '0'

def withPoint (count : Nat) (digits : List Char) : List Char :=
  digits.take count ++ '.' :: digits.drop count

def Decimal.plain (d : Decimal) (pointZero : Bool) : List Char :=
  let digits := digitsOf d.digits
  let count : Int := digits.length + d.exponent
  if 0 ≤ d.exponent then
    digits ++ zeros d.exponent.toNat ++ if pointZero then ['.', '0'] else []
  else if 0 < count then withPoint count.toNat digits
  else '0' :: '.' :: (zeros (-count).toNat ++ digits)

def Decimal.scientific (d : Decimal) (exponentPlus : Bool) : List Char :=
  let digits := digitsOf d.digits
  let lead : Int := digits.length + d.exponent - 1
  let body := if digits.length = 1 then digits else withPoint 1 digits
  let sign := if lead < 0 then ['-'] else if exponentPlus then ['+'] else []
  body ++ 'e' :: (sign ++ digitsOf lead.natAbs)

def Decimal.write (d : Decimal) (style : NumberStyle) : List Char :=
  let lead : Int := (digitsOf d.digits).length + d.exponent - 1
  let low := style.plainFrom.all (· ≤ lead)
  let high := style.plainUpTo.all (lead ≤ ·)
  if d.digits = 0 || low && high then d.plain style.pointZero else d.scientific style.exponentPlus

end ShaderBench.Number

namespace ShaderBench.Single
open Number

def signText (x : Single) : List Char := if x.isNegative && !x.isNaN then ['-'] else []

def write (style : NumberStyle) (x : Single) : List Char :=
  if x.isNaN then ['N', 'a', 'N']
  else if x.isInfinite then x.signText ++ ['i', 'n', 'f']
  else if x.isZero then x.signText ++ Decimal.write ⟨0, 0⟩ style
  else x.signText ++ (x.magnitude.shortest style.tie).write style

def writeFixed (places : Nat) (x : Single) : List Char :=
  if x.isNaN then ['N', 'a', 'N']
  else if x.isInfinite then x.signText ++ ['i', 'n', 'f']
  else
    let q := x.magnitude.quotient
    let digits := digitsOf (Quotient.round ⟨q.num * Nat.pow 10 places, q.den⟩ .toEven)
    let padded := zeros (places + 1 - digits.length) ++ digits
    x.signText ++ withPoint (padded.length - places) padded

def nearest (digits : Nat) (exponent : Int) : Single :=
  let lead : Int := (digitsOf digits).length + exponent
  if digits = 0 || lead < -60 then zero
  else if 60 < lead then infinity
  else ofDecimal digits exponent

def digitValue (s : List Char) : Nat := s.foldl (fun n c => 10 * n + (c.toNat - '0'.toNat)) 0

def readExponent? : List Char → Option Int
  | '+' :: s => unsigned? s
  | '-' :: s => (unsigned? s).map (- ·)
  | s => unsigned? s
where
  unsigned? (s : List Char) : Option Int :=
    if s.all Char.isDigit && !s.isEmpty then some (digitValue s) else none

def read? (s : List Char) : Option Single := do
  let whole := s.takeWhile Char.isDigit
  let afterWhole := s.dropWhile Char.isDigit
  let (fraction, rest) := match afterWhole with
    | '.' :: t => (t.takeWhile Char.isDigit, t.dropWhile Char.isDigit)
    | t => ([], t)
  if whole.isEmpty && fraction.isEmpty then none
  let exponent ← match rest with
    | [] => some 0
    | c :: t => if c = 'e' || c = 'E' then readExponent? t else none
  some (nearest (digitValue (whole ++ fraction)) (exponent - fraction.length))

end ShaderBench.Single
