import ShaderBench.Number.Binary
import ShaderBench.Toml.Text
import ShaderBench.Toml.Value
/-
The numbers, truth values, dates and times of TOML, each a word without blanks.
-/
namespace ShaderBench.Toml
open Number

/-- The digits of a number, with underscores only between two of them. -/
def digitGroups? (isDigit : Char → Bool) : List Char → Option (List Char)
  | [] => none
  | [c] => if isDigit c then some [c] else none
  | c :: '_' :: rest => if isDigit c then (digitGroups? isDigit rest).map (c :: ·) else none
  | c :: rest => if isDigit c then (digitGroups? isDigit rest).map (c :: ·) else none

def numberIn (base : Nat) (digits : List Char) : Nat :=
  digits.foldl (fun n c => base * n + (hexDigit? c).getD 0) 0

def decimalDigits? (s : List Char) : Option (List Char) := do
  let digits ← digitGroups? Char.isDigit s
  if s.head? = some '0' && s.length ≠ 1 then none else some digits

def splitSign : List Char → Bool × List Char
  | '-' :: rest => (true, rest)
  | '+' :: rest => (false, rest)
  | s => (false, s)

def signed (negative : Bool) (n : Nat) : Int := if negative then -n else n

def integerIn64? (n : Int) : Option Value :=
  if Int64.minValue.toInt ≤ n ∧ n ≤ Int64.maxValue.toInt then some (.integer n) else none

def inBase? (base : Nat) (isDigit : Char → Bool) (s : List Char) : Option Value :=
  digitGroups? isDigit s >>= fun digits => integerIn64? (numberIn base digits)

def integer? : List Char → Option Value
  | '0' :: 'x' :: rest => inBase? 16 (fun c => (hexDigit? c).isSome) rest
  | '0' :: 'o' :: rest => inBase? 8 (fun c => '0' ≤ c && c ≤ '7') rest
  | '0' :: 'b' :: rest => inBase? 2 (fun c => c = '0' || c = '1') rest
  | s => do
    let (negative, rest) := splitSign s
    integerIn64? (signed negative (numberIn 10 (← decimalDigits? rest)))

def exponent? (s : List Char) : Option Int := do
  let (negative, rest) := splitSign s
  some (signed negative (numberIn 10 (← digitGroups? Char.isDigit rest)))

def cutAt? (isCut : Char → Bool) (s : List Char) : Option (List Char × List Char) :=
  match s.dropWhile fun c => !isCut c with
  | [] => none
  | _ :: after => some (s.takeWhile fun c => !isCut c, after)

/-- Whether digits * 10^exponent is past the largest number in double precision. Exponents far out
    are decided without the power. -/
def overflows (digits : Nat) (length : Nat) (exponent : Int) : Bool :=
  if digits = 0 || exponent + length < -400 then false
  else if 400 < exponent then true
  else Format.binary64.round (Quotient.ofDecimal digits exponent) = Format.binary64.infinity

def floatParts? (s : List Char) : Option (List Char × List Char × Int) := do
  let (mantissa, exponent) ← match cutAt? (fun c => c = 'e' || c = 'E') s with
    | some (mantissa, after) => do some (mantissa, some (← exponent? after))
    | none => some (s, none)
  match cutAt? (· = '.') mantissa, exponent with
  | some (whole, fraction), e =>
    some (← decimalDigits? whole, ← digitGroups? Char.isDigit fraction, e.getD 0)
  | none, some e => some (← decimalDigits? mantissa, [], e)
  | none, none => none

def float? (s : List Char) : Option Value :=
  let (negative, rest) := splitSign s
  if rest = "inf".toList || rest = "nan".toList then some (.float s)
  else do
    let (whole, fraction, exponent) ← floatParts? rest
    let digits := whole ++ fraction
    if !negative && overflows (numberIn 10 digits) digits.length (exponent - fraction.length)
    then none else some (.float s)

def isPair (least most : Nat) (a b : Char) : Bool :=
  a.isDigit && b.isDigit && least ≤ numberIn 10 [a, b] && numberIn 10 [a, b] ≤ most

def isLeapYear (year : Nat) : Bool := year % 4 = 0 && (year % 100 ≠ 0 || year % 400 = 0)

def daysIn (year month : Nat) : Nat :=
  if month = 2 then if isLeapYear year then 29 else 28
  else if month = 4 || month = 6 || month = 9 || month = 11 then 30
  else 31

def afterDate? : List Char → Option (List Char)
  | a :: b :: c :: d :: '-' :: e :: f :: '-' :: g :: h :: rest =>
    if [a, b, c, d].all Char.isDigit && isPair 1 12 e f &&
        isPair 1 (daysIn (numberIn 10 [a, b, c, d]) (numberIn 10 [e, f])) g h
    then some rest else none
  | _ => none

def afterFraction : List Char → List Char
  | '.' :: c :: rest => if c.isDigit then rest.dropWhile Char.isDigit else '.' :: c :: rest
  | s => s

/-- The text behind a time of day. A minute can have a 61st second. -/
def afterTime? : List Char → Option (List Char)
  | a :: b :: ':' :: c :: d :: ':' :: e :: f :: rest =>
    if isPair 0 23 a b && isPair 0 59 c d && isPair 0 60 e f then some (afterFraction rest)
    else none
  | _ => none

def isZone : List Char → Bool
  | ['Z'] | ['z'] => true
  | sign :: a :: b :: ':' :: c :: [d] =>
    (sign = '+' || sign = '-') && isPair 0 23 a b && isPair 0 59 c d
  | _ => false

def isZonedTime (s : List Char) : Bool :=
  match afterTime? s with
  | some rest => rest.isEmpty || isZone rest
  | none => false

def moment? (s : List Char) : Option Value :=
  let known := match afterDate? s with
    | some [] => true
    | some (c :: rest) => (c = 'T' || c = 't') && isZonedTime rest
    | none => afterTime? s = some []
  if known then some (.moment s) else none

def word? (s : List Char) : Option Value :=
  if s = "true".toList then some (.boolean true)
  else if s = "false".toList then some (.boolean false)
  else moment? s <|> float? s <|> integer? s

def isWordChar (c : Char) : Bool := c.isAlphanum || "+-_.:".toList.contains c

def scalar (s : List Char) : Read Value :=
  let word := s.takeWhile isWordChar
  let rest := s.dropWhile isWordChar
  let next := rest.tail.takeWhile isWordChar
  if afterDate? word = some [] && rest.head? = some ' ' && isZonedTime next then
    some (.moment (word ++ ' ' :: next), rest.tail.dropWhile isWordChar)
  else (word? word).map fun v => (v, rest)

end ShaderBench.Toml
