import ShaderBench.Preview.Painter
import ShaderBench.Screen.Buffer
import ShaderBench.View.TerminalInput
import ShaderBench.Workspace.Basic
/-
The preview in a terminal: the picture, and below it a row with the parameters and a row with the
status.
-/
namespace ShaderBench.View
open Control Editing Preview Screen Gpu

def overlayRows : Nat := 2

def viewport (cols rows : Nat) : Size := ⟨max cols 1, max (rows - overlayRows) 1 * 2⟩

def standardInterval : Nat := 16 * millisecond

/-- The reciprocal of a rate in double precision, to the nanosecond; ties go to the even one. -/
def rateInterval (rate : Nat) : Nat :=
  let x := Number.Format.binary64.nearest ⟨1, rate⟩
  Number.Quotient.round ⟨x.num * second, x.den⟩ .toEven

def interval (maxRate : Option Nat) : Nat :=
  match maxRate with
  | none | some 0 => standardInterval
  | some rate => rateInterval rate

structure Terminal where
  buffer : Buffer
  workspace : Workspace
  rows : Nat
  fault : Option String
  interval : Nat
  frameRate : Option FrameRate

def statusColors : Status → Color × Color
  | .help => (⟨150, 150, 150⟩, ⟨20, 20, 20⟩)
  | .prompt _ => (⟨255, 255, 255⟩, ⟨30, 30, 60⟩)
  | .info _ => (⟨255, 255, 255⟩, ⟨20, 60, 120⟩)
  | .alert _ => (⟨0, 0, 0⟩, ⟨230, 180, 40⟩)
  | .error _ => (⟨255, 255, 255⟩, ⟨150, 20, 20⟩)

/-- The lines of a panel on one line, from the selected one on and around to it. -/
def panelLine (lines : List String) (selected : Nat) : String :=
  if lines.isEmpty then "(no parameters)"
  else
    let selected := min selected (lines.length - 1)
    String.intercalate "   " (lines.drop selected ++ lines.take selected)

def padStart (width : Nat) (s : List Char) : List Char :=
  List.replicate (width - s.length) ' ' ++ s

def rateText (r : FrameRate) : List Char := padStart 5 (r.rate.writeFixed 1) ++ " fps  ".toList

namespace Terminal

def start (cols rows : Nat) (workspace : Workspace) (maxRate : Option Nat) (showRate : Bool) :
    Terminal :=
  { buffer := .blank cols rows
    workspace
    rows
    fault := none
    interval := View.interval maxRate
    frameRate := if showRate then some .empty else none }

def imageRows (t : Terminal) : Nat := t.rows - overlayRows

def push (t : Terminal) (h : Handover) : Terminal × Handover :=
  let taken := t.workspace.session.takeProgram
  let h := taken.1.elim h h.submit
  ({ t with workspace := t.workspace.setSession taken.2 },
    h.setParams taken.2.params taken.2.revision)

def command (translator : Translator) (t : Terminal) (c : Command) :
    Terminal × Option HostAction :=
  let commanded := t.workspace.command translator c
  ({ t with workspace := commanded.1 }, commanded.2)

def setPrompt (t : Terminal) (p : PromptLine) : Terminal :=
  { t with workspace := { t.workspace with prompt := p } }

def promptKey (translator : Translator) (t : Terminal) (key : TerminalKey) :
    Terminal × Option HostAction :=
  let prompt := t.workspace.prompt
  match key with
  | .enter =>
    (t.setPrompt .closed).command translator (.submitPrompt (String.ofList prompt.text))
  | .escape => (t.setPrompt .closed, none)
  | .backspace => (t.setPrompt prompt.backspace, none)
  | .char c => (t.setPrompt (prompt.push c), none)
  | _ => (t, none)

def press (translator : Translator) (t : Terminal) (p : TerminalPress) :
    Terminal × Option HostAction :=
  if t.workspace.prompt.isOpen then t.promptKey translator p.key
  else
    match p.command? with
    | some c => t.command translator c
    | none => (t, none)

def resize (t : Terminal) (h : Handover) (cols rows : Nat) : Terminal × Handover :=
  ({ t with rows, buffer := t.buffer.resize cols rows }, { h with viewport := viewport cols rows })

def shownStatus (t : Terminal) : Status :=
  match t.workspace.status, t.fault with
  | .help, some fault => .error s!"GPU: {fault}"
  | status, _ => status

def statusLine (t : Terminal) : List Char :=
  (t.frameRate.elim [] rateText) ++ t.shownStatus.text.toList

def drawOverlay (t : Terminal) : Terminal :=
  let desk := t.workspace.desk
  let colors := statusColors t.shownStatus
  let line := (panelLine desk.panel desk.cursor.index).toList
  let buffer := t.buffer.drawText t.imageRows line ⟨220, 220, 220⟩ ⟨10, 10, 10⟩
  { t with buffer := buffer.drawText (t.imageRows + 1) t.statusLine colors.1 colors.2 }

def drawFrame (t : Terminal) (f : Frame) : Terminal :=
  { t with buffer := t.buffer.drawFrame f t.imageRows }

def recordFrame (t : Terminal) (now : Nat) : Terminal :=
  { t with frameRate := t.frameRate.map fun r => r.record now }

def hear (t : Terminal) : Report → Terminal
  | .running => { t with fault := none }
  | .failed message => { t with fault := some message }

def poll (translator : Translator) (t : Terminal) (now : Nat) : Terminal × Bool :=
  let polled := t.workspace.poll translator now
  ({ t with workspace := polled.1 }, polled.2)

end Terminal

/-- Carries out what is left of a command, and tells whether the program goes on. A cell is one
    pixel wide and two pixels high. -/
def Terminal.act (h : Handover) (a : HostAction) (now : Nat) : Handover × Bool :=
  match a with
  | .quit => (h, false)
  | .togglePause => ({ h with clock := h.clock.toggle now }, true)
  | .restartTime => ({ h with clock := h.clock.restart now }, true)
  | .movePointer dx dy => ({ h with pointer := move h.pointer dx (dy * 2) h.viewport }, true)
  | .openPrompt => (h, true)

end ShaderBench.View
