import ShaderBench.Toml.Scalar
/-
The documents of TOML: values with their arrays and tables in braces, and lines of keys, headers
and comments.
-/
namespace ShaderBench.Toml

def skipIndent (s : List Char) : List Char := s.dropWhile isIndent

def skipTrivia : Bool → List Char → Option (List Char)
  | _, [] => some []
  | _, '\n' :: rest | _, '\r' :: '\n' :: rest => skipTrivia false rest
  | true, c :: rest => if isPlain c then skipTrivia true rest else none
  | false, '#' :: rest => skipTrivia true rest
  | false, c :: rest => if isIndent c then skipTrivia false rest else some (c :: rest)

def endLine (s : List Char) : Option (List Char) :=
  let s := match skipIndent s with
    | '#' :: rest => rest.dropWhile isPlain
    | s => s
  match s with
  | [] => some []
  | '\n' :: rest | '\r' :: '\n' :: rest => some rest
  | _ => none

def isBareKey (c : Char) : Bool := c.isAlphanum || c = '_' || c = '-'

def simpleKey (s : List Char) : Read Key :=
  match s with
  | '"' :: _ | '\'' :: _ => lineString s
  | _ =>
    let key := s.takeWhile isBareKey
    if key.isEmpty then none else some (key, s.dropWhile isBareKey)

/-- The depth that values in values, and the parts of a key, stay below. -/
def depthLimit : Nat := 80

def keyParts : Nat → List Char → Option (List Key × List Char)
  | 0, _ => none
  | n + 1, s => do
    let (part, rest) ← simpleKey (skipIndent s)
    match skipIndent rest with
    | '.' :: rest => do
      let (parts, rest) ← keyParts n rest
      some (part :: parts, rest)
    | rest => some ([part], rest)

def dottedKey (s : List Char) : Option ((List Key × Key) × List Char) := do
  let (parts, rest) ← keyParts (depthLimit - 1) s
  some ((parts.dropLast, ← parts.getLast?), rest)

def assignment (value : List Char → Read Value) (s : List Char) :
    Option (((List Key × Key) × Value) × List Char) := do
  let (key, rest) ← dottedKey s
  match rest with
  | '=' :: rest => do
    let (v, rest) ← value (skipIndent rest)
    some ((key, v), skipIndent rest)
  | _ => none

def arrayItems (value : List Char → Read Value) :
    Nat → List Char → Option (List Value × List Char)
  | 0, _ => none
  | n + 1, s => do
    match ← skipTrivia false s with
    | ']' :: rest => some ([], rest)
    | s => do
      let (v, rest) ← value s
      match ← skipTrivia false rest with
      | ',' :: rest => do
        let (vs, rest) ← arrayItems value n rest
        some (v :: vs, rest)
      | ']' :: rest => some ([v], rest)
      | _ => none

def inlineItems (value : List Char → Read Value) :
    Nat → Entries → List Char → Option (Entries × List Char)
  | 0, _, _ => none
  | n + 1, entries, s => do
    let (((path, key), v), rest) ← assignment value s
    let entries ← entries.insert path key v
    match rest with
    | ',' :: rest => inlineItems value n entries rest
    | '}' :: rest => some (entries, rest)
    | _ => none

def inlineTable (value : List Char → Read Value) (s : List Char) : Read Entries :=
  match skipIndent s with
  | '}' :: rest => some ([], rest)
  | s => inlineItems value s.length [] s

def value : Nat → List Char → Read Value
  | _, '"' :: rest => (string ('"' :: rest)).map fun (s, rest) => (.string s, rest)
  | _, '\'' :: rest => (string ('\'' :: rest)).map fun (s, rest) => (.string s, rest)
  | 0, s => scalar s
  | depth + 1, '[' :: rest =>
    (arrayItems (value depth) (rest.length + 1) rest).map fun (vs, rest) => (.array vs, rest)
  | depth + 1, '{' :: rest =>
    (inlineTable (value depth) rest).map fun (entries, rest) => (.inline entries, rest)
  | _, s => scalar s

def headerKey (closing : List Char) (s : List Char) : Option ((List Key × Key) × List Char) := do
  let (key, rest) ← dottedKey s
  if closing.isPrefixOf rest then some (key, rest.drop closing.length) else none

/-- The tables of a document so far, and the header that keys belong to. -/
structure Draft where
  entries : Entries
  header : List Key

def line (d : Draft) (s : List Char) : Option (Draft × List Char) := do
  match s with
  | '[' :: '[' :: rest => do
    let ((path, key), rest) ← headerKey [']', ']'] rest
    some (⟨← d.entries.openItem path key, path ++ [key]⟩, rest)
  | '[' :: rest => do
    let ((path, key), rest) ← headerKey [']'] rest
    some (⟨← d.entries.openTable path key, path ++ [key]⟩, rest)
  | s => do
    let (((path, key), v), rest) ← assignment (value (depthLimit - 1)) s
    some (⟨← d.entries.insertAt d.header path key v, d.header⟩, rest)

def lines : Nat → Draft → List Char → Option Entries
  | 0, _, _ => none
  | n + 1, d, s =>
    match skipIndent s with
    | [] => some d.entries
    | '#' :: rest => endLine ('#' :: rest) >>= lines n d
    | '\n' :: rest | '\r' :: '\n' :: rest => lines n d rest
    | s => do
      let (d, rest) ← line d s
      lines n d (← endLine rest)

def document (s : List Char) : Option Entries :=
  let s := match s with
    | '\ufeff' :: rest => rest
    | s => s
  lines (s.length + 1) ⟨[], []⟩ s

end ShaderBench.Toml
