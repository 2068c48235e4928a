/-
Texts and their bytes in UTF-8. Positions count bytes, and a cut is possible only at the boundary of a
character and within the text.
-/
namespace ShaderBench.Text

def byteLength (s : List Char) : Nat := s.foldr (fun c bytes => c.utf8Size + bytes) 0

/-- Cuts a text in two after the given number of bytes; none if that is past the end or inside
    a character. -/
def cutAt? : Nat → List Char → Option (List Char × List Char)
  | 0, s => some ([], s)
  | _ + 1, [] => none
  | n + 1, c :: s =>
    if c.utf8Size ≤ n + 1 then
      (cutAt? (n + 1 - c.utf8Size) s).map fun (before, after) => (c :: before, after)
    else none

def slice? (start stop : Nat) (s : List Char) : Option (List Char) := do
  let (_, rest) ← cutAt? start s
  let (middle, _) ← cutAt? (stop - start) rest
  if start ≤ stop then some middle else none

def splitAround? (word : List Char) : List Char → Option (List Char × List Char)
  | [] => if word.isEmpty then some ([], []) else none
  | c :: s =>
    if word.isPrefixOf (c :: s) then some ([], (c :: s).drop word.length)
    else (splitAround? word s).map fun (before, after) => (c :: before, after)

def newlines (s : List Char) : Nat := s.count '\n'

def blankLines (count : Nat) : List Char := List.replicate count '\n'

def restOfLine (s : List Char) : List Char := s.takeWhile (· ≠ '\n')

def occurs (word s : List Char) : Bool := (splitAround? word s).isSome

/- Replacing stretches of a text, given by ascending byte positions, while all else stays. -/

structure Edit where
  start : Nat
  stop : Nat
  text : List Char
  deriving DecidableEq, Repr

/-- Applies edits to the part of a text that begins at a position. There is no result if an edit
    lies before the position or past the end, is reversed, or cuts a character. -/
def splice (position : Nat) (s : List Char) : List Edit → Option (List Char)
  | [] => some s
  | e :: es =>
    if position ≤ e.start ∧ e.start ≤ e.stop then do
      let (before, rest) ← cutAt? (e.start - position) s
      let (_, after) ← cutAt? (e.stop - e.start) rest
      let tail ← splice e.stop after es
      some (before ++ e.text ++ tail)
    else none

/-
Bytes shown as text: UTF-8 where they are that, and a replacement character for each part of them
that is not.
-/

def replacement : Char := '\uFFFD'

structure Begun where
  value : Nat
  missing : Nat
  low : Nat
  high : Nat
  deriving DecidableEq, Repr

/-- The character that a first byte begins. The bounds of the second byte keep out spellings that
    are too long, the values of surrogates and those past the last character. -/
def begin? (b : Nat) : Option Begun :=
  if 0xC2 ≤ b ∧ b ≤ 0xDF then some ⟨b - 0xC0, 1, 0x80, 0xBF⟩
  else if b = 0xE0 then some ⟨0, 2, 0xA0, 0xBF⟩
  else if b = 0xED then some ⟨0xD, 2, 0x80, 0x9F⟩
  else if 0xE1 ≤ b ∧ b ≤ 0xEF then some ⟨b - 0xE0, 2, 0x80, 0xBF⟩
  else if b = 0xF0 then some ⟨0, 3, 0x90, 0xBF⟩
  else if 0xF1 ≤ b ∧ b ≤ 0xF3 then some ⟨b - 0xF0, 3, 0x80, 0xBF⟩
  else if b = 0xF4 then some ⟨4, 3, 0x80, 0x8F⟩
  else none

def startByte (b : Nat) : List Char × Option Begun :=
  if b < 0x80 then ([Char.ofNat b], none)
  else
    match begin? b with
    | some begun => ([], some begun)
    | none => ([replacement], none)

def nextByte (begun : Option Begun) (b : Nat) : List Char × Option Begun :=
  match begun with
  | none => startByte b
  | some begun =>
    if begun.low ≤ b ∧ b ≤ begun.high then
      let value := 0x40 * begun.value + (b - 0x80)
      if begun.missing ≤ 1 then ([Char.ofNat value], none)
      else ([], some ⟨value, begun.missing - 1, 0x80, 0xBF⟩)
    else
      let started := startByte b
      (replacement :: started.1, started.2)

def shownFrom (begun : Option Begun) : List UInt8 → List Char
  | [] => begun.toList.map fun _ => replacement
  | b :: rest =>
    let next := nextByte begun b.toNat
    next.1 ++ shownFrom next.2 rest

def shown (bytes : List UInt8) : List Char := shownFrom none bytes

end ShaderBench.Text
