import ShaderBench.CommandLine.Run
import ShaderBench.View.Terminal
/-
The preview in a terminal with both its sides, from the first drawing to the end.
-/
namespace ShaderBench.View
open Preview Screen Gpu Files Editing

structure TerminalPreview where
  terminal : Terminal
  handover : Handover
  painter : Painter
  slot : FrameSlot
  ended : Bool

structure Surroundings where
  translator : Translator
  device : Device
  reply : Assistant.Reply

namespace TerminalPreview

def start (cols rows : Nat) (workspace : Workspace) (maxRate : Option Nat) (showRate : Bool)
    (now : Nat) : TerminalPreview :=
  let viewport := viewport cols rows
  ⟨.start cols rows workspace maxRate showRate, .start viewport now, .start viewport, .empty,
    false⟩

def openAt (translator : Translator) (files : Folder) (o : CommandLine.Opening) (cols rows : Nat)
    (now : Nat) : TerminalPreview :=
  start cols rows (.openAt translator files o.path o.document o.settings.editor)
    o.settings.display.maxRate o.showRate now

def press (s : Surroundings) (now : Nat) (p : TerminalPreview) (pressed : TerminalPress) :
    TerminalPreview :=
  if p.ended then p
  else
    let terminal := p.terminal.press s.translator pressed
    let p := { p with terminal := terminal.1 }
    match terminal.2 with
    | none => p
    | some action =>
      let acted := Terminal.act p.handover action now
      { p with handover := acted.1, ended := !acted.2 }

def pressAll (s : Surroundings) (now : Nat) (p : TerminalPreview)
    (pressed : List TerminalPress) : TerminalPreview :=
  pressed.foldl (press s now) p

def resize (p : TerminalPreview) (cols rows : Nat) : TerminalPreview :=
  let resized := p.terminal.resize p.handover cols rows
  { p with terminal := resized.1, handover := resized.2 }

def mapWorkspace (p : TerminalPreview) (change : Workspace → Workspace) : TerminalPreview :=
  { p with terminal := { p.terminal with workspace := change p.terminal.workspace } }

def update (translator : Translator) (now : Nat) (p : TerminalPreview) : TerminalPreview :=
  let pushed := (p.terminal.poll translator now).1.push p.handover
  { p with terminal := pushed.1, handover := pushed.2 }

def paint (device : Device) (now : Nat) (p : TerminalPreview) : TerminalPreview :=
  let inputs := p.handover.inputs now
  let (painter, handover, report) := p.painter.turn device p.handover
  let terminal := report.elim p.terminal p.terminal.hear
  let p := { p with painter, handover, terminal }
  match painter.render device inputs with
  | some frame => { p with slot := p.slot.put frame, terminal := terminal.recordFrame now }
  | none => p

def draw (p : TerminalPreview) : TerminalPreview :=
  let (frame, slot) := p.slot.take
  let terminal := frame.elim p.terminal p.terminal.drawFrame
  { p with slot, terminal := terminal.drawOverlay }

def turn (s : Surroundings) (p : TerminalPreview) (now : Nat) : TerminalPreview :=
  let served := p.mapWorkspace fun w => w.serve s.reply
  ((served.update s.translator now).paint s.device now).draw

/-- Nothing changes by itself any more: the watch has settled, edits are committed, and all of it
    is drawn. -/
def rest (s : Surroundings) (p : TerminalPreview) (now : Nat) : TerminalPreview :=
  let settled := now + settlingTime
  let committed := settled + p.terminal.workspace.session.commitDelay
  [now, settled, committed, committed].foldl (turn s) p

def rows (p : TerminalPreview) : List (List Char) :=
  (List.range p.terminal.buffer.height).map p.terminal.buffer.rowText

def imageCells (p : TerminalPreview) : List Cell :=
  p.terminal.buffer.next.toList.take (p.terminal.imageRows * p.terminal.buffer.width)

end TerminalPreview
end ShaderBench.View
