import ShaderBench.Preview.Frame
/-
The cells of a terminal: those to be shown next and those shown last, so that only changes need to
be drawn.
-/
namespace ShaderBench.Screen
open Preview

inductive Cell where
  | pixels (top bottom : Color)
  | text (char : Char) (foreground background : Color)
  deriving DecidableEq, Repr

def Color.white : Color := ⟨255, 255, 255⟩

def Cell.blank : Cell := .text ' ' Color.white .black

def halfBlock : Char := '▀'

def Cell.char : Cell → Char
  | .pixels _ _ => halfBlock
  | .text char _ _ => char

def Cell.colors : Cell → Color × Color
  | .pixels top bottom => (top, bottom)
  | .text _ foreground background => (foreground, background)

def colorCodes (c : Color) : String := s!"{c.red};{c.green};{c.blue}m"

def Cell.sequence (c : Cell) : String :=
  s!"\x1b[38;2;{colorCodes c.colors.1}\x1b[48;2;{colorCodes c.colors.2}{c.char}\x1b[0m"

/-- Cells stand row by row. -/
structure Buffer where
  width : Nat
  height : Nat
  shown : Array Cell
  next : Array Cell
  redraw : Bool
  deriving DecidableEq, Repr

structure Change where
  x : Nat
  y : Nat
  cell : Cell
  deriving DecidableEq, Repr

namespace Buffer

def blank (width height : Nat) : Buffer :=
  let cells := Array.replicate (width * height) Cell.blank
  ⟨width, height, cells, cells, true⟩

def resize (b : Buffer) (width height : Nat) : Buffer :=
  if width = b.width ∧ height = b.height then b else blank width height

def set (b : Buffer) (x y : Nat) (cell : Cell) : Buffer :=
  if x < b.width ∧ y < b.height then
    { b with next := b.next.setIfInBounds (y * b.width + x) cell }
  else b

def changesFrom (b : Buffer) (position : Nat) : List (Cell × Cell) → List Change
  | [] => []
  | (next, shown) :: rest =>
    if b.redraw || next ≠ shown then
      ⟨position % b.width, position / b.width, next⟩ :: b.changesFrom (position + 1) rest
    else b.changesFrom (position + 1) rest

def changes (b : Buffer) : List Change := b.changesFrom 0 (b.next.toList.zip b.shown.toList)

def present (b : Buffer) : Buffer := { b with shown := b.next, redraw := false }

def setRow (b : Buffer) (x y : Nat) : List Cell → Buffer
  | [] => b
  | cell :: rest => (b.set x y cell).setRow (x + 1) y rest

def drawText (b : Buffer) (y : Nat) (text : List Char) (foreground background : Color) : Buffer :=
  let chars := (text ++ List.replicate b.width ' ').take b.width
  b.setRow 0 y (chars.map fun c => .text c foreground background)

def frameCell (f : Frame) (y x : Nat) : Cell := .pixels (f.color x (2 * y)) (f.color x (2 * y + 1))

/-- Fills rows at the top from a frame, two of its rows for each. -/
def drawFrame (b : Buffer) (f : Frame) (rows : Nat) : Buffer :=
  let width := min b.width f.size.width
  let rows := min (min rows b.height) ((f.size.height + 1) / 2)
  (List.range rows).foldl (fun b y => b.setRow 0 y ((List.range width).map (frameCell f y))) b

def rowText (b : Buffer) (y : Nat) : List Char :=
  let chars := ((b.next.toList.drop (y * b.width)).take b.width).map Cell.char
  (chars.reverse.dropWhile (· = ' ')).reverse

end Buffer
end ShaderBench.Screen
