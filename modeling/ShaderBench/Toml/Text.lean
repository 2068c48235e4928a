/-
The strings of TOML. Readers give what they have read and the text after it.
-/
namespace ShaderBench.Toml

def isPlain (c : Char) : Bool := c = '\t' || 0x20 ≤ c.toNat && c.toNat ≠ 0x7f

def isIndent (c : Char) : Bool := c = ' ' || c = '\t'

def hexDigit? (c : Char) : Option Nat :=
  if '0' ≤ c && c ≤ '9' then some (c.toNat - 48)
  else if 'a' ≤ c && c ≤ 'f' then some (c.toNat - 87)
  else if 'A' ≤ c && c ≤ 'F' then some (c.toNat - 55)
  else none

def hexNumber? (digits : List Char) : Option Nat :=
  digits.foldlM (fun n c => (hexDigit? c).map (16 * n + ·)) 0

def charOf? (code : Nat) : Option Char :=
  if h : code.isValidChar then some (Char.ofNatAux code h) else none

def escaped? (digits : List Char) : Option Char := hexNumber? digits >>= charOf?

def escape? : Char → Option Char
  | 'b' => some '\x08'
  | 't' => some '\t'
  | 'n' => some '\n'
  | 'f' => some '\x0c'
  | 'r' => some '\r'
  | '"' => some '"'
  | '\\' => some '\\'
  | _ => none

abbrev Read (α : Type) := Option (α × List Char)

def Read.cons (c : Char) (r : Read (List Char)) : Read (List Char) :=
  r.map fun (s, rest) => (c :: s, rest)

def Read.consIf (c : Option Char) (r : Read (List Char)) : Read (List Char) :=
  c.bind fun c => r.cons c

def basicText : List Char → Read (List Char)
  | [] => none
  | '"' :: rest => some ([], rest)
  | '\\' :: 'u' :: a :: b :: c :: d :: rest => (basicText rest).consIf (escaped? [a, b, c, d])
  | '\\' :: 'U' :: a :: b :: c :: d :: e :: f :: g :: h :: rest =>
    (basicText rest).consIf (escaped? [a, b, c, d, e, f, g, h])
  | '\\' :: c :: rest => (basicText rest).consIf (escape? c)
  | c :: rest => if isPlain c then (basicText rest).cons c else none

def literalText : List Char → Read (List Char)
  | [] => none
  | '\'' :: rest => some ([], rest)
  | c :: rest => if isPlain c then (literalText rest).cons c else none

/-- Where a reader is in a string of several lines: in its text, or at a backslash that joins two
    lines, before the end of the line or after it. -/
inductive Join where
  | none
  | before
  | after
  deriving DecidableEq, Repr

/-- The rest of a string in three double quotes. Up to two quotes before the last three are part
    of it. -/
def longBasicText : Join → List Char → Read (List Char)
  | _, [] => none
  | .before, '\n' :: rest | .before, '\r' :: '\n' :: rest => longBasicText .after rest
  | .before, c :: rest => if isIndent c then longBasicText .before rest else none
  | .after, '\n' :: rest | .after, '\r' :: '\n' :: rest => longBasicText .after rest
  | .after, ' ' :: rest | .after, '\t' :: rest => longBasicText .after rest
  | _, '"' :: '"' :: '"' :: '"' :: '"' :: rest => some (['"', '"'], rest)
  | _, '"' :: '"' :: '"' :: '"' :: rest => some (['"'], rest)
  | _, '"' :: '"' :: '"' :: rest => some ([], rest)
  | _, '"' :: rest => (longBasicText .none rest).cons '"'
  | _, '\\' :: 'u' :: a :: b :: c :: d :: rest =>
    (longBasicText .none rest).consIf (escaped? [a, b, c, d])
  | _, '\\' :: 'U' :: a :: b :: c :: d :: e :: f :: g :: h :: rest =>
    (longBasicText .none rest).consIf (escaped? [a, b, c, d, e, f, g, h])
  | _, '\\' :: '\n' :: rest | _, '\\' :: '\r' :: '\n' :: rest => longBasicText .after rest
  | _, '\\' :: c :: rest =>
    if isIndent c then longBasicText .before rest
    else (longBasicText .none rest).consIf (escape? c)
  | _, '\n' :: rest | _, '\r' :: '\n' :: rest => (longBasicText .none rest).cons '\n'
  | _, c :: rest => if isPlain c then (longBasicText .none rest).cons c else none

def longLiteralText : List Char → Read (List Char)
  | [] => none
  | '\'' :: '\'' :: '\'' :: '\'' :: '\'' :: rest => some (['\'', '\''], rest)
  | '\'' :: '\'' :: '\'' :: '\'' :: rest => some (['\''], rest)
  | '\'' :: '\'' :: '\'' :: rest => some ([], rest)
  | '\'' :: rest => (longLiteralText rest).cons '\''
  | '\n' :: rest | '\r' :: '\n' :: rest => (longLiteralText rest).cons '\n'
  | c :: rest => if isPlain c then (longLiteralText rest).cons c else none

def dropNewline : List Char → List Char
  | '\n' :: rest | '\r' :: '\n' :: rest => rest
  | s => s

def lineString : List Char → Read (List Char)
  | '"' :: rest => basicText rest
  | '\'' :: rest => literalText rest
  | _ => none

def string : List Char → Read (List Char)
  | '"' :: '"' :: '"' :: rest => longBasicText .none (dropNewline rest)
  | '\'' :: '\'' :: '\'' :: rest => longLiteralText (dropNewline rest)
  | s => lineString s

end ShaderBench.Toml
