/-
Reading JSON. Strings are kept as they are written, with halves of surrogate pairs, and objects
with all of their members: what is not looked at need not make sense.
-/
namespace ShaderBench.Json

/-- A part of a string: a character, or half of a surrogate pair. -/
inductive Part where
  | char (c : Char)
  | half (code : Nat)
  deriving DecidableEq, Repr

inductive Node where
  | null
  | bool (b : Bool)
  | number
  | string (parts : List Part)
  | array (items : List Node)
  | object (members : List (List Part × Node))

def isHighHalf (code : Nat) : Bool := 0xD800 ≤ code && code < 0xDC00
def isLowHalf (code : Nat) : Bool := 0xDC00 ≤ code && code < 0xE000

def chars? : List Part → Option (List Char)
  | [] => some []
  | .char c :: rest => (chars? rest).map (c :: ·)
  | .half high :: .half low :: rest =>
    if isHighHalf high && isLowHalf low then
      (chars? rest).map (Char.ofNat (0x10000 + (high - 0xD800) * 0x400 + (low - 0xDC00)) :: ·)
    else none
  | .half _ :: _ => none

def digit? (c : Char) : Option Nat :=
  if '0' ≤ c && c ≤ '9' then some (c.toNat - 48)
  else if 'a' ≤ c && c ≤ 'f' then some (c.toNat - 87)
  else if 'A' ≤ c && c ≤ 'F' then some (c.toNat - 55)
  else none

def codeUnit? (digits : List Char) : Option Nat :=
  digits.foldlM (fun n c => (digit? c).map (16 * n + ·)) 0

def partOf (code : Nat) : Part :=
  if isHighHalf code || isLowHalf code then .half code else .char (Char.ofNat code)

def unescape? : Char → Option Char
  | '"' => some '"'
  | '\\' => some '\\'
  | '/' => some '/'
  | 'b' => some '\x08'
  | 'f' => some '\x0c'
  | 'n' => some '\n'
  | 'r' => some '\r'
  | 't' => some '\t'
  | _ => none

def addPart (p : Option Part) (r : Option (List Part × List Char)) :
    Option (List Part × List Char) := do
  let (parts, rest) ← r
  some ((← p) :: parts, rest)

def stringParts : List Char → Option (List Part × List Char)
  | [] => none
  | '"' :: rest => some ([], rest)
  | '\\' :: 'u' :: a :: b :: c :: d :: rest =>
    addPart ((codeUnit? [a, b, c, d]).map partOf) (stringParts rest)
  | '\\' :: c :: rest => addPart ((unescape? c).map .char) (stringParts rest)
  | c :: rest => if c.toNat < 0x20 then none else addPart (some (.char c)) (stringParts rest)

def isSpace (c : Char) : Bool := c = ' ' || c = '\n' || c = '\r' || c = '\t'

def skipSpace (s : List Char) : List Char := s.dropWhile isSpace

def dropDigits (s : List Char) : Option (List Char) :=
  if (s.head?.map Char.isDigit).getD false then some (s.dropWhile Char.isDigit) else none

def dropWhole : List Char → Option (List Char)
  | '0' :: rest => some rest
  | s => dropDigits s

def dropFraction : List Char → Option (List Char)
  | '.' :: rest => dropDigits rest
  | s => some s

def dropExponent : List Char → Option (List Char)
  | 'e' :: '+' :: rest | 'e' :: '-' :: rest | 'E' :: '+' :: rest | 'E' :: '-' :: rest
  | 'e' :: rest | 'E' :: rest => dropDigits rest
  | s => some s

def dropNumber (s : List Char) : Option (List Char) :=
  let s := match s with
    | '-' :: rest => rest
    | s => s
  dropWhole s >>= dropFraction >>= dropExponent

abbrev Reader := List Char → Option (Node × List Char)

def items (node : Reader) : Nat → List Char → Option (List Node × List Char)
  | 0, _ => none
  | n + 1, s => do
    let (item, rest) ← node s
    match skipSpace rest with
    | ',' :: rest => do
      let (more, rest) ← items node n rest
      some (item :: more, rest)
    | ']' :: rest => some ([item], rest)
    | _ => none

def members (node : Reader) : Nat → List Char → Option (List (List Part × Node) × List Char)
  | 0, _ => none
  | n + 1, s => do
    match skipSpace s with
    | '"' :: rest => do
      let (name, rest) ← stringParts rest
      match skipSpace rest with
      | ':' :: rest => do
        let (value, rest) ← node rest
        match skipSpace rest with
        | ',' :: rest => do
          let (more, rest) ← members node n rest
          some ((name, value) :: more, rest)
        | '}' :: rest => some ([(name, value)], rest)
        | _ => none
      | _ => none
    | _ => none

def word (s : List Char) : Option (Node × List Char) :=
  match s with
  | 'n' :: 'u' :: 'l' :: 'l' :: rest => some (.null, rest)
  | 't' :: 'r' :: 'u' :: 'e' :: rest => some (.bool true, rest)
  | 'f' :: 'a' :: 'l' :: 's' :: 'e' :: rest => some (.bool false, rest)
  | _ => (dropNumber s).map fun rest => (.number, rest)

def node : Nat → Reader
  | 0, _ => none
  | n + 1, s =>
    match skipSpace s with
    | '"' :: rest => (stringParts rest).map fun (parts, rest) => (.string parts, rest)
    | '[' :: rest =>
      match skipSpace rest with
      | ']' :: rest => some (.array [], rest)
      | rest => (items (node n) (rest.length + 1) rest).map fun (is, rest) => (.array is, rest)
    | '{' :: rest =>
      match skipSpace rest with
      | '}' :: rest => some (.object [], rest)
      | rest => (members (node n) (rest.length + 1) rest).map fun (ms, rest) => (.object ms, rest)
    | s => word s

def read? (s : List Char) : Option Node := do
  let (value, rest) ← node (s.length + 1) s
  if (skipSpace rest).isEmpty then some value else none

end ShaderBench.Json
