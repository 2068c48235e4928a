import ShaderBench.Param.Adjust
import ShaderBench.Editing.Session
/-
The desk: a session and the cursor on its parameters, worked by commands, whatever keys they come
from.
-/
namespace ShaderBench.Control
open Param Gpu Editing

inductive Command where
  | quit
  | togglePause
  | restartTime
  | movePointer (dx dy : Int)
  | nextParam
  | prevParam
  | nextComponent
  | increase
  | decrease
  | resetParam
  | undo
  | redo
  | openPrompt
  | submitPrompt (text : String)
  | explainError
  | dismiss
  deriving DecidableEq, Repr

inductive HostAction where
  | quit
  | togglePause
  | restartTime
  | movePointer (dx dy : Int)
  | openPrompt
  deriving DecidableEq, Repr

inductive Outcome where
  | nothing
  | paramsChanged
  | documentChanged
  | request (r : Assistant.Request)
  | host (a : HostAction)
  deriving DecidableEq, Repr

/- The cursor of the panel: one parameter and one of its components. -/

structure Cursor where
  index : Nat
  component : Nat
  deriving DecidableEq, Repr

namespace Cursor

def home : Cursor := ⟨0, 0⟩

def selected (c : Cursor) (ps : List Parameter) : Option Parameter := ps[c.index]?

/-- Brings the cursor onto a list: to the last parameter if it is past that, and to the first
    component if it is past the last one. -/
def clamp (c : Cursor) (ps : List Parameter) : Cursor :=
  let c := if c.index < ps.length then c else ⟨ps.length - 1, 0⟩
  let components := (c.selected ps).elim 1 fun p => p.kind.components
  if c.component < components then c else { c with component := 0 }

def next (c : Cursor) (ps : List Parameter) : Cursor :=
  if ps.isEmpty then c else ⟨(c.index + 1) % ps.length, 0⟩

def prev (c : Cursor) (ps : List Parameter) : Cursor :=
  if ps.isEmpty then c else ⟨(c.index + ps.length - 1) % ps.length, 0⟩

def nextComponent (c : Cursor) (ps : List Parameter) : Cursor :=
  match c.selected ps with
  | some p => { c with component := (c.component + 1) % p.kind.components }
  | none => c

end Cursor

def panelFrom (c : Cursor) (number : Nat) : List Parameter → List String
  | [] => []
  | p :: ps =>
    (if number = c.index then "> " ++ p.describe (some c.component) else "  " ++ p.describe none) ::
      panelFrom c (number + 1) ps

def panel (c : Cursor) (ps : List Parameter) : List String := panelFrom c 0 ps

/- The line in which a request for the text service is typed. -/

structure PromptLine where
  isOpen : Bool
  text : List Char
  deriving DecidableEq, Repr

/-- The control characters of both ASCII and Latin-1. -/
def isControl (c : Char) : Bool := c.toNat < 0x20 || 0x7f ≤ c.toNat && c.toNat < 0xa0

namespace PromptLine

def closed : PromptLine := ⟨false, []⟩

def opened : PromptLine := ⟨true, []⟩

/-- Control characters are not taken. -/
def push (p : PromptLine) (c : Char) : PromptLine :=
  if isControl c then p else { p with text := p.text ++ [c] }

def pushAll (p : PromptLine) (s : List Char) : PromptLine := s.foldl push p

def backspace (p : PromptLine) : PromptLine := { p with text := p.text.dropLast }

end PromptLine

structure Desk where
  session : Session
  cursor : Cursor

namespace Desk

def params (d : Desk) : List Parameter := d.session.params

def clampCursor (d : Desk) : Desk := { d with cursor := d.cursor.clamp d.params }

def moveCursor (d : Desk) (move : Cursor → List Parameter → Cursor) : Desk × Outcome :=
  ({ d with cursor := move d.cursor d.params }, .nothing)

/-- Replaces the selected parameter. The parameters count as changed even if it stays as it is. -/
def putSelected (d : Desk) (p : Parameter) : Desk :=
  { d with session := d.session.changeParams (d.params.set d.cursor.index p) }

def adjust (d : Desk) (direction : Direction) : Desk × Outcome :=
  match d.cursor.selected d.params with
  | none => (d, .nothing)
  | some p =>
    match p.adjust d.cursor.component direction with
    | .changed p' => (d.putSelected p', .paramsChanged)
    | .unchanged | .badRange => (d.putSelected p, .nothing)

def reset (d : Desk) : Desk × Outcome :=
  match d.cursor.selected d.params with
  | none => (d, .nothing)
  | some p => (d.putSelected p.reset, .paramsChanged)

def afterLoad (d : Desk) (loaded : Session × Bool) : Desk × Outcome :=
  let d := { d with session := loaded.1 }
  if loaded.2 then (d.clampCursor, .documentChanged) else (d, .nothing)

def afterBegin (d : Desk) (begun : Except NoRequest (Session × Assistant.Request)) :
    Desk × Outcome :=
  match begun with
  | .ok (session, request) => ({ d with session }, .request request)
  | .error e => ({ d with session := d.session.report e.message }, .nothing)

def apply (translator : Translator) (d : Desk) (command : Command) : Desk × Outcome :=
  let d := d.clampCursor
  match command with
  | .quit => (d, .host .quit)
  | .togglePause => (d, .host .togglePause)
  | .restartTime => (d, .host .restartTime)
  | .movePointer dx dy => (d, .host (.movePointer dx dy))
  | .openPrompt => (d, .host .openPrompt)
  | .nextParam => d.moveCursor .next
  | .prevParam => d.moveCursor .prev
  | .nextComponent => d.moveCursor .nextComponent
  | .increase => d.adjust .up
  | .decrease => d.adjust .down
  | .resetParam => d.reset
  | .undo => d.afterLoad (d.session.undo translator)
  | .redo => d.afterLoad (d.session.redo translator)
  | .submitPrompt text => d.afterBegin (d.session.beginGeneration text)
  | .explainError => d.afterBegin d.session.beginExplain
  | .dismiss => ({ d with session := d.session.dismiss }, .nothing)

def panel (d : Desk) : List String := Control.panel d.cursor d.params

end Desk
end ShaderBench.Control
