import ShaderBench.Proofs.Editing.Coherence
/-
An alert is told and forgotten: whatever is done to a session comes out the same with any alert.
-/
namespace ShaderBench.Editing
open Gpu Param Assistant

namespace Session
variable {translator : Translator}

/-- A session without its alert. -/
def muted (s : Session) : Session := { s with alert := none }

theorem muted_muted (s : Session) : s.muted.muted = s.muted := rfl

theorem of_muted {s s' : Session} (same : s.muted = s'.muted) :
    s.params = s'.params ∧ s.revision = s'.revision ∧ s.pending = s'.pending := by
  rw [muted, muted, Session.mk.injEq] at same
  obtain ⟨_, _, _, _, _, params, revision, pending, _⟩ := same
  exact ⟨params, revision, pending⟩

def mute {α : Type} : Session × α → Session × α := Prod.map muted id

theorem mute_fst {α : Type} (p : Session × α) : (mute p).1 = p.1.muted := rfl

theorem muted_isDirty (s : Session) : s.muted.isDirty = s.isDirty := rfl

theorem muted_history (s : Session) : s.muted.history = s.history := rfl

theorem refresh_muted (s : Session) :
    refresh translator s.muted = (refresh translator s).muted := by
  rw [refresh_eq, refresh_eq]
  rfl

theorem refreshUnless_muted (c : Prop) [Decidable c] (s s' : Session) :
    (if c then (s.muted, false) else (refresh translator s'.muted, true)) =
      mute (if c then (s, false) else (refresh translator s', true)) := by
  split
  · rfl
  · exact congrArg (·, true) (refresh_muted s')

theorem load_muted (s : Session) (document : String) :
    s.muted.load translator document = mute (s.load translator document) := by
  rw [load, load]
  exact refreshUnless_muted (document = s.document) s { s with document }

theorem edit_muted (s : Session) (document : String) (now : Nat) :
    s.muted.edit translator document now = mute (s.edit translator document now) := by
  rw [edit, edit]
  exact refreshUnless_muted (document = s.document) s { s with document, dirtySince := some now }

theorem tick_muted (s : Session) (now : Nat) : s.muted.tick now = mute (s.tick now) := by
  have since : s.muted.dirtySince = s.dirtySince := rfl
  have delay : s.muted.commitDelay = s.commitDelay := rfl
  rw [tick, tick, since, delay]
  cases s.dirtySince with
  | none => rfl
  | some since =>
    dsimp only
    split <;> rfl

theorem commitDirty_muted (s : Session) : s.muted.commitDirty = s.commitDirty.muted := by
  rw [commitDirty, commitDirty, muted_isDirty]
  split <;> rfl

theorem replace_muted (s : Session) (document : String) :
    s.muted.replace translator document = (s.replace translator document).muted := by
  rw [replace, replace, commitDirty_muted, ← refresh_muted]
  rfl

theorem undo_muted (s : Session) : s.muted.undo translator = mute (s.undo translator) := by
  rw [undo, undo, muted_isDirty, muted_history]
  split
  · exact load_muted { s with dirtySince := none } s.history.current
  · cases s.history.undo? with
    | none => rfl
    | some h => exact load_muted { s with history := h } h.current

theorem redo_muted (s : Session) : s.muted.redo translator = mute (s.redo translator) := by
  rw [redo, redo, muted_isDirty, muted_history]
  split
  · rfl
  · cases s.history.redo? with
    | none => rfl
    | some h => exact load_muted { s with history := h } h.current

theorem setParam_muted (s : Session) (name : String) (v : Value) :
    orElseKeep s.muted (s.muted.setParam name v) = (orElseKeep s (s.setParam name v)).muted := by
  have params : s.muted.params = s.params := rfl
  rw [setParam, setParam, params]
  cases setNamed name v s.params <;> rfl

theorem beginGeneration_muted (s : Session) (prompt : String) :
    s.muted.beginGeneration prompt = s.beginGeneration prompt := rfl

theorem beginExplain_muted (s : Session) : s.muted.beginExplain = s.beginExplain.map mute := by
  have error : s.muted.error = s.error := rfl
  have busy : s.muted.isBusy = s.isBusy := rfl
  rw [beginExplain, beginExplain, error]
  cases s.error with
  | none => rfl
  | some e =>
    simp only [busy]
    split <;> rfl

theorem finish_muted (s : Session) (r : Response) :
    (s.muted.finish translator r).1.muted = (s.finish translator r).1.muted := by
  cases r with
  | generated reply =>
    cases reply with
    | ok document =>
      rw [finish, finish]
      dsimp only
      rw [← muted_muted (replace _ { s with inFlight := none } document)]
      exact congrArg muted (replace_muted { s with inFlight := none } document)
    | error e => rfl
  | explained text => rfl

end Session
end ShaderBench.Editing

namespace ShaderBench.Control.Desk
open Gpu Param Editing Session Assistant
variable {translator : Translator}

def muted (d : Desk) : Desk := { d with session := d.session.muted }

theorem muted_muted (d : Desk) : d.muted.muted = d.muted := rfl

theorem muted_session (d : Desk) : d.muted.session = d.session.muted := rfl

theorem muted_params (d : Desk) : d.muted.params = d.params := rfl

theorem muted_cursor (d : Desk) : d.muted.cursor = d.cursor := rfl

theorem muted_congr {s s' : Session} (cursor : Cursor) (same : s.muted = s'.muted) :
    (Desk.mk s cursor).muted = (Desk.mk s' cursor).muted :=
  congrArg (Desk.mk · cursor) same

theorem taken_muted {d d' : Desk} (same : d.muted = d'.muted) :
    (Desk.mk d.session.takeProgram.2 d.cursor).muted =
      (Desk.mk d'.session.takeProgram.2 d'.cursor).muted := by
  have taken := congrArg (fun d : Desk => Desk.mk d.session.takeProgram.2 d.cursor) same
  exact taken

theorem adjust_muted (d : Desk) (direction : Direction) :
    (d.muted.adjust direction).1 = (d.adjust direction).1.muted := by
  rw [adjust, adjust, muted_cursor, muted_params]
  cases d.cursor.selected d.params with
  | none => rfl
  | some p =>
    dsimp only
    cases p.adjust d.cursor.component direction <;> rfl

theorem reset_muted (d : Desk) : d.muted.reset.1 = d.reset.1.muted := by
  rw [reset, reset, muted_cursor, muted_params]
  cases d.cursor.selected d.params <;> rfl

theorem afterLoad_muted (d : Desk) (loaded : Session × Bool) :
    (d.muted.afterLoad (mute loaded)).1 = (d.afterLoad loaded).1.muted := by
  obtain ⟨s, changed⟩ := loaded
  cases changed <;> rfl

theorem afterBegin_muted (d : Desk) (begun : Except NoRequest (Session × Request)) :
    (d.muted.afterBegin (begun.map mute)).1.muted = (d.afterBegin begun).1.muted := by
  cases begun <;> rfl

theorem apply_muted (d : Desk) (c : Command) :
    (d.muted.apply translator c).1.muted = (d.apply translator c).1.muted := by
  have clamped : d.muted.clampCursor = d.clampCursor.muted := rfl
  unfold apply
  rw [clamped]
  generalize d.clampCursor = d
  cases c with
  | undo =>
    dsimp only
    rw [muted_session, undo_muted, afterLoad_muted, muted_muted]
  | redo =>
    dsimp only
    rw [muted_session, redo_muted, afterLoad_muted, muted_muted]
  | increase =>
    dsimp only
    rw [adjust_muted, muted_muted]
  | decrease =>
    dsimp only
    rw [adjust_muted, muted_muted]
  | resetParam =>
    dsimp only
    rw [reset_muted, muted_muted]
  | submitPrompt text =>
    dsimp only
    rw [muted_session, beginGeneration_muted]
    cases d.session.beginGeneration text <;> rfl
  | explainError =>
    dsimp only
    rw [muted_session, beginExplain_muted, afterBegin_muted]
  | quit | togglePause | restartTime | movePointer | openPrompt | nextParam | prevParam
  | nextComponent | dismiss => rfl

end ShaderBench.Control.Desk

namespace ShaderBench.Editing
open Gpu Control Session Control.Desk
variable {translator : Translator}

theorem step_muted (d : Desk) (o : Operation) :
    (step translator d.muted o).muted = (step translator d o).muted := by
  cases o with
  | edit document now =>
    refine muted_congr d.cursor ?_
    rw [muted_session, edit_muted, mute_fst, Session.muted_muted]
  | tick now =>
    refine muted_congr d.cursor ?_
    rw [muted_session, tick_muted, mute_fst, Session.muted_muted]
  | replace document =>
    refine muted_congr d.cursor ?_
    rw [muted_session, replace_muted, Session.muted_muted]
  | undo =>
    refine muted_congr d.cursor ?_
    rw [muted_session, undo_muted, mute_fst, Session.muted_muted]
  | redo =>
    refine muted_congr d.cursor ?_
    rw [muted_session, redo_muted, mute_fst, Session.muted_muted]
  | setParam name v =>
    refine muted_congr d.cursor ?_
    rw [muted_session, setParam_muted, Session.muted_muted]
  | command c => exact apply_muted d c
  | beginGeneration prompt =>
    refine muted_congr d.cursor ?_
    rw [muted_session, beginGeneration_muted]
    cases d.session.beginGeneration prompt <;> rfl
  | beginExplain =>
    refine muted_congr d.cursor ?_
    rw [muted_session, beginExplain_muted]
    cases d.session.beginExplain <;> rfl
  | finish r => exact muted_congr d.cursor (finish_muted d.session r)
  | commit | abandon | report | takeProgram | dismiss => rfl

/-- Two desks that differ in their alerts at most do so after any run. -/
theorem run_muted {d d' : Desk} (same : d.muted = d'.muted) (os : List Operation) :
    (os.foldl (step translator) d).muted = (os.foldl (step translator) d').muted := by
  induction os generalizing d d' with
  | nil => exact same
  | cons o os ih =>
    refine ih ?_
    rw [← step_muted d o, same, step_muted d' o]

end ShaderBench.Editing
