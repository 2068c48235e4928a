import ShaderBench.Preview.Painter
import ShaderBench.Workspace.Basic
/-
The preview in a window.
-/
namespace ShaderBench.View
open Control Preview Gpu Param

inductive NamedKey where
  | escape
  | space
  | up
  | down
  | left
  | right
  | tab
  | enter
  | backspace
  | other
  deriving DecidableEq, Repr

inductive WindowKey where
  | named (key : NamedKey)
  | text (s : String)
  deriving DecidableEq, Repr

def pointerStep : Int := 10

def textCommand? (s : String) : Option Command :=
  match s with
  | "q" | "Q" => some .quit
  | "r" => some .restartTime
  | "c" => some .nextComponent
  | "+" | "=" => some .increase
  | "-" | "_" => some .decrease
  | "0" => some .resetParam
  | "u" => some .undo
  | "U" => some .redo
  | "g" => some .openPrompt
  | "e" => some .explainError
  | _ => none

def WindowKey.command? (k : WindowKey) (shift : Bool) : Option Command :=
  match k with
  | .named .escape => some .dismiss
  | .named .space => some .togglePause
  | .named .up => some (.movePointer 0 (-pointerStep))
  | .named .down => some (.movePointer 0 pointerStep)
  | .named .left => some (.movePointer (-pointerStep) 0)
  | .named .right => some (.movePointer pointerStep 0)
  | .named .tab => some (if shift then .prevParam else .nextParam)
  | .named .enter | .named .backspace | .named .other => none
  | .text s => textCommand? s

structure WindowPress where
  key : WindowKey
  typed : Option String
  deriving DecidableEq, Repr

structure Scene where
  clock : Clock
  pointer : Point
  size : Size
  deriving DecidableEq, Repr

namespace Scene

def start (size : Size) (now : Nat) : Scene := ⟨.startAt now, center, size⟩

def placePointer (s : Scene) (x y : Single) : Scene := { s with pointer := pointAt x y s.size }

def inputs (s : Scene) (now : Nat) : Inputs :=
  ⟨s.size.width, s.size.height, s.clock.elapsed now, s.pointer⟩

def act (s : Scene) (a : HostAction) (now : Nat) : Scene :=
  match a with
  | .togglePause => { s with clock := s.clock.toggle now }
  | .restartTime => { s with clock := s.clock.restart now }
  | .movePointer dx dy => { s with pointer := move s.pointer dx dy s.size }
  | .quit | .openPrompt => s

end Scene

structure Window where
  workspace : Workspace
  scene : Scene
  shift : Bool
  /-- The revision of the parameters that the painter has. -/
  seen : Nat
  painter : Option Painter
  frameRate : Option FrameRate

namespace Window

def start (workspace : Workspace) (display : Settings.Display) (now : Nat) : Window :=
  { workspace
    scene := .start ⟨display.windowWidth, display.windowHeight⟩ now
    shift := false
    seen := 0
    painter := none
    frameRate := none }

def withPainter (w : Window) (showRate : Bool) : Window :=
  { w with
    painter := some (.start w.scene.size)
    frameRate := if showRate then some .empty else none }

def syncParams (w : Window) (p : Painter) : Window × Painter :=
  let s := w.workspace.session
  if s.revision = w.seen then (w, p) else ({ w with seen := s.revision }, p.setParams s.params)

/-- The newest program goes to the painter; that it cannot run is an alert. -/
def syncProgram (device : Device) (w : Window) (p : Painter) : Window × Painter :=
  let taken := w.workspace.session.takeProgram
  let w := { w with workspace := w.workspace.setSession taken.2 }
  match taken.1 with
  | none => (w, p)
  | some program =>
    match p.load device program with
    | .ok p => (w, p)
    | .error message =>
      ({ w with workspace := w.workspace.setSession (w.workspace.session.report message) }, p)

def sync (device : Device) (w : Window) : Window :=
  match w.painter with
  | none => w
  | some p =>
    let synced := w.syncParams p
    let synced := synced.1.syncProgram device synced.2
    { synced.1 with painter := some synced.2 }

def command (translator : Translator) (w : Window) (c : Command) : Window × Option HostAction :=
  let commanded := w.workspace.command translator c
  ({ w with workspace := commanded.1 }, commanded.2)

def setPrompt (w : Window) (p : PromptLine) : Window :=
  { w with workspace := { w.workspace with prompt := p } }

def promptKey (translator : Translator) (w : Window) (p : WindowPress) :
    Window × Option HostAction :=
  let prompt := w.workspace.prompt
  match p.key with
  | .named .enter =>
    (w.setPrompt .closed).command translator (.submitPrompt (String.ofList prompt.text))
  | .named .escape => (w.setPrompt .closed, none)
  | .named .backspace => (w.setPrompt prompt.backspace, none)
  | _ => (w.setPrompt (prompt.pushAll (p.typed.elim [] String.toList)), none)

def route (translator : Translator) (w : Window) (p : WindowPress) :
    Window × Option HostAction :=
  if w.workspace.prompt.isOpen then w.promptKey translator p
  else
    match p.key.command? w.shift with
    | some c => w.command translator c
    | none => (w, none)

def press (translator : Translator) (device : Device) (w : Window) (p : WindowPress)
    (now : Nat) : Window :=
  let routed := w.route translator p
  let w := { routed.1 with scene := routed.2.elim routed.1.scene fun a => routed.1.scene.act a now }
  w.sync device

def placePointer (w : Window) (x y : Single) : Window :=
  { w with scene := w.scene.placePointer x y }

def resize (w : Window) (size : Size) : Window :=
  { w with scene := { w.scene with size := size.positive } }

def poll (translator : Translator) (w : Window) (now : Nat) : Window × Bool :=
  let polled := w.workspace.poll translator now
  ({ w with workspace := polled.1 }, polled.2)

def packed (w : Window) : Option (List UInt8) := do
  let pipeline ← (← w.painter).pipeline
  some pipeline.buffer

end Window
end ShaderBench.View
