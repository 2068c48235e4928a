import ShaderBench.Proofs.Editing.Alerts
import ShaderBench.Proofs.View.Exchange
import ShaderBench.View.Window
/-
The preview in a window and the one in a terminal side by side, with the same done to the session
of both. The window gives its painter what is new at once, the terminal leaves it in between; after
every hand-over the same program runs in both, with the same bytes.
-/
namespace ShaderBench
open Control Editing Preview Gpu Param

def Workspace.operate (translator : Translator) (w : Workspace) (os : List Operation) :
    Workspace :=
  { w with desk := os.foldl (Editing.step translator) w.desk }

namespace Preview.Painter

structure Matches (q p : Painter) : Prop where
  pipeline : q.pipeline = p.pipeline
  params : q.params = p.params

theorem Matches.trans {q p r : Painter} (alike : q.Matches p) (alike' : p.Matches r) :
    q.Matches r :=
  ⟨alike.pipeline.trans alike'.pipeline, alike.params.trans alike'.params⟩

theorem Matches.setParams {q p : Painter} (alike : q.Matches p) (params : List Parameter) :
    (q.setParams params).Matches (p.setParams params) := by
  constructor
  · rw [setParams_pipeline, setParams_pipeline, alike.pipeline]
  · rw [setParams_params, setParams_params]

theorem Matches.takeParams {q p : Painter} (alike : q.Matches p) (informed : p.Informed)
    (size : Size) (revision seen : Nat) (params : List Parameter) :
    (if revision = seen then q else q.setParams params).Matches
      ((p.resize size).takeParams (if revision = seen then none else some (revision, params))) := by
  split
  · exact ⟨alike.pipeline, alike.params⟩
  · have resized : q.Matches { p.resize size with seen := revision } :=
      ⟨alike.pipeline, alike.params⟩
    rw [(informed.resize size).takeParams_some]
    exact resized.setParams params

theorem Matches.takeProgram {q p : Painter} (alike : q.Matches p)
    (fault? : Program → Option String)
    (picture picture' : Program → List UInt8 → Inputs → Array UInt8) (taken : Option Program) :
    (q.takeProgram ⟨fault?, picture⟩ taken).1.Matches
      (p.takeProgram ⟨fault?, picture'⟩ taken).1 := by
  cases taken with
  | none => exact alike
  | some program =>
    have created : Pipeline.create ⟨fault?, picture⟩ program =
      Pipeline.create ⟨fault?, picture'⟩ program := rfl
    simp only [Painter.takeProgram, load, created]
    cases Pipeline.create ⟨fault?, picture'⟩ program with
    | error message => exact alike
    | ok pipeline =>
      constructor
      · simp only [Except.map, upload, alike.params]
      · exact alike.params

end Preview.Painter

namespace View
variable {translator : Translator} {device : Device}

structure Round where
  operations : List Operation
  now : Nat

def Window.round (translator : Translator) (device : Device) (w : Window) (r : Round) : Window :=
  { w with workspace := w.workspace.operate translator r.operations }.sync device

def TerminalPreview.sync (device : Device) (p : TerminalPreview) (now : Nat) : TerminalPreview :=
  let pushed := p.terminal.push p.handover
  { p with terminal := pushed.1, handover := pushed.2 }.paint device now

def TerminalPreview.round (translator : Translator) (device : Device) (p : TerminalPreview)
    (r : Round) : TerminalPreview :=
  (p.mapWorkspace fun w => w.operate translator r.operations).sync device r.now

namespace Window

theorem syncParams_eq (w : Window) (q : Painter) :
    w.syncParams q =
      ({ w with seen := w.workspace.session.revision },
        if w.workspace.session.revision = w.seen then q
        else q.setParams w.workspace.session.params) := by
  rw [syncParams]
  split
  · rename_i same
    rw [same]
  · rfl

/-- A program that is given at once comes to one that is taken in a turn. -/
theorem syncProgram_matches (w : Window) (q : Painter) :
    (w.syncProgram device q).2.Matches (q.takeProgram device w.workspace.session.pending).1 ∧
      (w.syncProgram device q).1.seen = w.seen ∧
      (w.syncProgram device q).1.workspace.desk.muted =
        (Desk.mk w.workspace.session.takeProgram.2 w.workspace.desk.cursor).muted := by
  have taken : w.workspace.session.takeProgram.1 = w.workspace.session.pending := rfl
  rw [syncProgram, taken]
  cases w.workspace.session.pending with
  | none => exact ⟨⟨rfl, rfl⟩, rfl, rfl⟩
  | some program =>
    dsimp only [Painter.takeProgram]
    cases q.load device program <;> exact ⟨⟨rfl, rfl⟩, rfl, rfl⟩

theorem sync_some {w : Window} {q : Painter} (paints : w.painter = some q) :
    let s := w.workspace.session
    let after := if s.revision = w.seen then q else q.setParams s.params
    (∃ q', (w.sync device).painter = some q' ∧
        q'.Matches (after.takeProgram device s.pending).1) ∧
      (w.sync device).seen = s.revision ∧
      (w.sync device).workspace.desk.muted =
        (Desk.mk s.takeProgram.2 w.workspace.desk.cursor).muted := by
  rw [sync, paints]
  dsimp only
  rw [syncParams_eq]
  obtain ⟨alike, seen, desk⟩ := @syncProgram_matches device
    { w with seen := w.workspace.session.revision }
    (if w.workspace.session.revision = w.seen then q else q.setParams w.workspace.session.params)
  exact ⟨⟨_, rfl, alike⟩, seen, desk⟩

end Window

namespace TerminalPreview

theorem paint_painter (p : TerminalPreview) (now : Nat) :
    (p.paint device now).painter = (p.painter.turn device p.handover).1 ∧
      (p.paint device now).handover = (p.painter.turn device p.handover).2.1 ∧
      (p.paint device now).terminal.workspace = p.terminal.workspace := by
  rw [paint]
  obtain ⟨painter, handover, report⟩ := p.painter.turn device p.handover
  cases report with
  | none =>
    dsimp only
    split <;> exact ⟨rfl, rfl, rfl⟩
  | some report =>
    dsimp only
    cases report <;> split <;> exact ⟨rfl, rfl, rfl⟩

theorem push_eq (t : Terminal) {h : Handover} (taken : h.program = none) :
    let s := t.workspace.session
    (t.push h).2.program = s.pending ∧ (t.push h).2.revision = s.revision ∧
      (t.push h).2.params = if s.revision = h.revision then h.params else s.params := by
  obtain ⟨revision, params⟩ := h.params_submitted t.workspace.session.pending
  have left : (t.push h).2 = (t.workspace.session.pending.elim h h.submit).setParams
    t.workspace.session.params t.workspace.session.revision := rfl
  rw [left, Handover.setParams_program, Handover.setParams_revision, Handover.setParams_params,
    Handover.program_submitted, taken, Option.or_none, revision, params]
  exact ⟨rfl, rfl, rfl⟩

theorem sync_eq {p : TerminalPreview} (left : p.handover.revision = p.painter.seen)
    (taken : p.handover.program = none) (now : Nat) :
    let s := p.terminal.workspace.session
    let newer := if s.revision = p.painter.seen then none else some (s.revision, s.params)
    (∃ size, (p.sync device now).painter =
      (((p.painter.resize size).takeParams newer).takeProgram device s.pending).1) ∧
    (p.sync device now).painter.seen = s.revision ∧
    (p.sync device now).handover.revision = s.revision ∧
    (p.sync device now).handover.program = none ∧
    (p.sync device now).terminal.workspace.desk =
      Desk.mk s.takeProgram.2 p.terminal.workspace.desk.cursor := by
  intro s newer
  obtain ⟨program, revision, params⟩ := push_eq p.terminal taken
  have since : (p.terminal.push p.handover).2.paramsSince p.painter.seen = newer := by
    rw [Handover.paramsSince, revision, params, left]
    split
    · rename_i same
      exact (if_pos same).symm
    · rename_i other
      exact (if_neg other).symm
  obtain ⟨painter, handover, workspace⟩ := @paint_painter device
    { p with
      terminal := (p.terminal.push p.handover).1
      handover := (p.terminal.push p.handover).2 } now
  have worked : (p.sync device now).painter =
      (((p.painter.resize (p.terminal.push p.handover).2.viewport).takeParams newer).takeProgram
        device s.pending).1 := by
    rw [← since]
    refine painter.trans ?_
    rw [Painter.turn]
    dsimp only [Handover.takeProgram]
    rw [program]
  refine ⟨⟨_, worked⟩, ?_, ?_, ?_, ?_⟩
  · rw [worked, (Painter.takeProgram_params _ _ _).1]
    refine (congrArg Prod.fst (Painter.takeParams_taken _ newer)).trans ?_
    by_cases same : s.revision = p.painter.seen
    · rw [show newer = none from if_pos same, same]
      rfl
    · rw [show newer = some (s.revision, s.params) from if_neg same]
      rfl
  · exact (congrArg Handover.revision handover).trans revision
  · exact congrArg Handover.program handover
  · exact congrArg Workspace.desk workspace

end TerminalPreview

/-- After a hand-over both previews are up to date with one session, but for its alert, and their
    painters match. -/
structure Level (w : Window) (p : TerminalPreview) : Prop where
  desk : w.workspace.desk.muted = p.terminal.workspace.desk.muted
  painter : ∃ q, w.painter = some q ∧ q.Matches p.painter
  informed : p.painter.Informed
  seen : w.seen = p.painter.seen
  left : p.handover.revision = p.painter.seen
  taken : p.handover.program = none

theorem level_start (workspace : Workspace) (display : Settings.Display) (opened : Nat)
    (showRate : Bool) (cols rows : Nat) (maxRate : Option Nat) (showRate' : Bool) (opened' : Nat) :
    Level ((Window.start workspace display opened).withPainter showRate)
      (.start cols rows workspace maxRate showRate' opened') :=
  ⟨rfl, ⟨_, rfl, rfl, rfl⟩, Painter.informed_start _, rfl, rfl, rfl⟩

theorem Level.session {w : Window} {p : TerminalPreview} (level : Level w p) :
    w.workspace.session.muted = p.terminal.workspace.session.muted := by
  have same := congrArg Desk.session level.desk
  exact same

section
variable {w : Window} {p : TerminalPreview} (level : Level w p) (translator : Translator)
  (fault? : Program → Option String)
  (picture picture' : Program → List UInt8 → Inputs → Array UInt8)
include level

theorem Level.operate (os : List Operation) :
    Level { w with workspace := w.workspace.operate translator os }
      (p.mapWorkspace fun w => w.operate translator os) :=
  ⟨run_muted level.desk os, level.painter, level.informed, level.seen, level.left, level.taken⟩

theorem Level.sync (now : Nat) :
    Level (w.sync ⟨fault?, picture⟩) (p.sync ⟨fault?, picture'⟩ now) := by
  obtain ⟨q, paints, alike⟩ := level.painter
  obtain ⟨params, revision, pending⟩ := Session.of_muted level.session
  obtain ⟨⟨q', painter, synced⟩, seen, desk⟩ := @Window.sync_some ⟨fault?, picture⟩ w q paints
  obtain ⟨⟨size, painter'⟩, seen', left, taken, desk'⟩ :=
    @TerminalPreview.sync_eq ⟨fault?, picture'⟩ p level.left level.taken now
  rw [revision, params, pending, level.seen] at synced
  refine ⟨?_, ⟨q', painter, ?_⟩, ?_, ?_, ?_, taken⟩
  · rw [desk, desk']
    exact Desk.taken_muted level.desk
  · rw [painter']
    have same := alike.takeParams level.informed size
      p.terminal.workspace.session.revision p.painter.seen p.terminal.workspace.session.params
    exact synced.trans (same.takeProgram fault? picture picture' _)
  · rw [painter']
    exact ((level.informed.resize size).takeParams _).takeProgram _ _
  · rw [seen, seen', revision]
  · rw [left, seen']

theorem Level.rounds (rounds : List Round) :
    Level (rounds.foldl (Window.round translator ⟨fault?, picture⟩) w)
      (rounds.foldl (TerminalPreview.round translator ⟨fault?, picture'⟩) p) := by
  induction rounds generalizing w p with
  | nil => exact level
  | cons r rounds ih =>
    exact ih ((level.operate translator r.operations).sync fault? picture picture' r.now)

end

/-- At every hand-over the painter of the window and that of the terminal run the same program with
    the same bytes, on devices that give the same verdict on every program. -/
theorem previews_agree (translator : Translator) (fault? : Program → Option String)
    (picture picture' : Program → List UInt8 → Inputs → Array UInt8) (workspace : Workspace)
    (display : Settings.Display) (opened : Nat) (showRate : Bool) (cols rows : Nat)
    (maxRate : Option Nat) (showRate' : Bool) (opened' : Nat) (rounds : List Round) :
    let window := rounds.foldl (Window.round translator ⟨fault?, picture⟩)
      ((Window.start workspace display opened).withPainter showRate)
    let terminal := rounds.foldl (TerminalPreview.round translator ⟨fault?, picture'⟩)
      (.start cols rows workspace maxRate showRate' opened')
    window.painter.bind Painter.pipeline = terminal.painter.pipeline := by
  have level := (level_start workspace display opened showRate cols rows maxRate showRate'
    opened').rounds translator fault? picture picture' rounds
  obtain ⟨q, paints, alike⟩ := level.painter
  dsimp only
  rw [paints]
  exact alike.pipeline

end View
end ShaderBench
