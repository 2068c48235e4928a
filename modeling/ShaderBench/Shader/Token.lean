import ShaderBench.Text.Bytes
/-
Tokens of shader source: names, numbers and single marks. Comments, quoted strings and directive
lines hold no tokens. The reader looks at one character at a time, with one character of
look-ahead, and gives each character its role, so the roles of a text are a function of the state
it is entered in.
-/
namespace ShaderBench.Shader
open Text

inductive TokenKind where
  | ident
  | number
  | punct
  deriving DecidableEq, Repr

structure Token where
  kind : TokenKind
  start : Nat
  text : List Char
  deriving DecidableEq, Repr

def Token.stop (t : Token) : Nat := t.start + byteLength t.text

def Token.isPunct (t : Token) (c : Char) : Bool := t.kind = .punct && t.text = [c]

def Token.isIdent (t : Token) : Bool := t.kind = .ident

inductive Continuation where
  | none
  | backslash
  | backslashReturn
  deriving DecidableEq, Repr

inductive Region where
  | between (lineStart : Bool)
  | word
  | number (afterExponent : Bool)
  | lineComment
  | blockOpening
  | block (afterStar : Bool)
  | quoted (escaped : Bool)
  | directive (continuation : Continuation)
  deriving DecidableEq, Repr

/-- The letters, digits and points that stand directly before a character: whether they begin as
    a hexadecimal literal does. -/
inductive Run where
  | empty
  | zero
  | hex
  | other
  deriving DecidableEq, Repr

def Run.extend (run : Run) (c : Char) : Run :=
  if c.isAlphanum || c = '.' then
    match run with
    | .empty => if c = '0' then .zero else .other
    | .zero => if c = 'x' || c = 'X' then .hex else .other
    | .hex => .hex
    | .other => .other
  else .empty

structure ReadState where
  region : Region
  run : Run
  deriving DecidableEq, Repr

def ReadState.start : ReadState := ⟨.between true, .empty⟩

/-- What a character is to the tokens: the first of one, a further one, or part of none. -/
inductive Role where
  | opens (kind : TokenKind)
  | continues
  | skipped
  deriving DecidableEq, Repr

def isSpacing (c : Char) : Bool := c = ' ' || c = '\t' || c = '\x0c' || c = '\r'

def startsName (c : Char) : Bool := c.isAlpha || c = '_'
def continuesName (c : Char) : Bool := c.isAlphanum || c = '_'

def readBetween (lineStart : Bool) (c : Char) (next : Option Char) : Region × Role :=
  if c = '\n' then (.between true, .skipped)
  else if isSpacing c then (.between lineStart, .skipped)
  else if lineStart && c = '#' then (.directive .none, .skipped)
  else if c = '/' && next = some '/' then (.lineComment, .skipped)
  else if c = '/' && next = some '*' then (.blockOpening, .skipped)
  else if c = '"' then (.quoted false, .skipped)
  else if startsName c then (.word, .opens .ident)
  else if c.isDigit || c = '.' && next.any Char.isDigit then (.number false, .opens .number)
  else (.between false, .opens .punct)

/-- Whether a character goes on with a number: letters, digits and points do, and a sign does
    after an exponent mark unless the literal is hexadecimal. -/
def continuesNumber (afterExponent : Bool) (run : Run) (c : Char) : Bool :=
  c.isAlphanum || c = '.' || (c = '+' || c = '-') && afterExponent && run ≠ .hex

def readDirective (continuation : Continuation) (c : Char) : Region :=
  if c = '\n' then
    match continuation with
    | .none => .between true
    | .backslash | .backslashReturn => .directive .none
  else if c = '\\' then .directive .backslash
  else if c = '\r' && continuation = .backslash then .directive .backslashReturn
  else .directive .none

def ReadState.read (s : ReadState) (c : Char) (next : Option Char) : Region × Role :=
  match s.region with
  | .between lineStart => readBetween lineStart c next
  | .word => if continuesName c then (.word, .continues) else readBetween false c next
  | .number afterExponent =>
    if continuesNumber afterExponent s.run c then (.number (c = 'e' || c = 'E'), .continues)
    else readBetween false c next
  | .lineComment => (if c = '\n' then .between true else .lineComment, .skipped)
  | .blockOpening => (.block false, .skipped)
  | .block afterStar =>
    (if afterStar && c = '/' then .between false else .block (c = '*'), .skipped)
  | .quoted escaped =>
    (if escaped then .quoted false
     else if c = '\\' then .quoted true
     else if c = '"' then .between false
     else if c = '\n' then .between true
     else .quoted false, .skipped)
  | .directive continuation => (readDirective continuation c, .skipped)

def ReadState.next (s : ReadState) (c : Char) (next : Option Char) : ReadState :=
  ⟨(s.read c next).1, s.run.extend c⟩

def roles : ReadState → List Char → List (Char × Role)
  | _, [] => []
  | s, c :: cs => (c, (s.read c cs.head?).2) :: roles (s.next c cs.head?) cs

def gather : Nat → List (Char × Role) → List Token
  | _, [] => []
  | position, (c, role) :: rest =>
    let later := gather (position + c.utf8Size) rest
    match role with
    | .opens kind =>
      ⟨kind, position, c :: (rest.takeWhile (·.2 = .continues)).map Prod.fst⟩ :: later
    | .continues | .skipped => later

def tokens (source : List Char) : List Token := gather 0 (roles .start source)

end ShaderBench.Shader
