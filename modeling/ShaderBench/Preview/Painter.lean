import ShaderBench.Preview.Frame
/-
The two sides of a preview: the side with the session leaves what is new, the side with the device
runs the last program that the device has taken, and draws frames.
-/
namespace ShaderBench.Preview
open Gpu Param

structure Handover where
  program : Option Program
  params : List Parameter
  revision : Nat
  clock : Clock
  pointer : Point
  viewport : Size
  closing : Bool

namespace Handover

def start (viewport : Size) (now : Nat) : Handover :=
  ⟨none, [], 0, .startAt now, center, viewport, false⟩

def submit (h : Handover) (program : Program) : Handover := { h with program := some program }

def takeProgram (h : Handover) : Option Program × Handover :=
  (h.program, { h with program := none })

def setParams (h : Handover) (params : List Parameter) (revision : Nat) : Handover :=
  if revision = h.revision then h else { h with params, revision }

def paramsSince (h : Handover) (seen : Nat) : Option (Nat × List Parameter) :=
  if h.revision = seen then none else some (h.revision, h.params)

def inputs (h : Handover) (now : Nat) : Inputs :=
  ⟨h.viewport.width, h.viewport.height, h.clock.elapsed now, h.pointer⟩

end Handover

structure Painter where
  pipeline : Option Pipeline
  params : List Parameter
  seen : Nat
  target : Size
  /-- The program whose layout parameters that are taken over are written in. -/
  current : Option Program
  deriving DecidableEq, Repr

inductive Report where
  | running
  | failed (message : String)
  deriving DecidableEq, Repr

namespace Painter

def start (target : Size) : Painter := ⟨none, [], 0, target.positive, none⟩

def upload (p : Painter) (layout : Layout) : Painter :=
  { p with pipeline := p.pipeline.map fun pipeline => pipeline.write (layout.pack p.params) }

/-- Runs another program. If it cannot run, the one before goes on. -/
def load (device : Device) (p : Painter) (program : Program) : Except String Painter :=
  (Pipeline.create device program).map fun pipeline =>
    { p with pipeline := some pipeline }.upload program.layout

def resize (p : Painter) (size : Size) : Painter := { p with target := size.positive }

def setParams (p : Painter) (params : List Parameter) : Painter :=
  let p := { p with params }
  match p.pipeline with
  | some pipeline => p.upload pipeline.program.layout
  | none => p

def render (device : Device) (p : Painter) (inputs : Inputs) : Option Frame :=
  p.pipeline.map fun pipeline =>
    let inputs := { inputs with width := p.target.width, height := p.target.height }
    ⟨device.picture pipeline.program pipeline.buffer inputs, p.target⟩

def takeParams (p : Painter) : Option (Nat × List Parameter) → Painter
  | some (revision, params) =>
    let p := { p with seen := revision, params }
    match p.current with
    | some program => p.upload program.layout
    | none => p
  | none => p

def takeProgram (device : Device) (p : Painter) : Option Program → Painter × Option Report
  | some program =>
    match p.load device program with
    | .ok p => ({ p with current := some program }, some .running)
    | .error message => (p, some (.failed message))
  | none => (p, none)

/-- One turn: what has been left is taken over, the parameters first. -/
def turn (device : Device) (p : Painter) (h : Handover) : Painter × Handover × Option Report :=
  let p := (p.resize h.viewport).takeParams (h.paramsSince p.seen)
  let taken := h.takeProgram
  let loaded := p.takeProgram device taken.1
  (loaded.1, taken.2, loaded.2)

end Painter
end ShaderBench.Preview
