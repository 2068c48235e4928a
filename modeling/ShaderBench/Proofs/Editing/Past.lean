import ShaderBench.Proofs.Editing.LiveValues
import ShaderBench.Proofs.Editing.Zipper
/-
The history in a session. Few operations are about documents, and each of them leads the history
on by its own moves, so that in every state of a run it stands as a zipper does.
-/
namespace ShaderBench.Editing.History

def Leads (h h' : History) : Prop := ∃ ms, reachedBy move h ms = h'

theorem Leads.refl (h : History) : Leads h h := ⟨[], rfl⟩

theorem Leads.trans {h h' h'' : History} (first : Leads h h') (second : Leads h' h'') :
    Leads h h'' := by
  obtain ⟨ms, there⟩ := first
  obtain ⟨ms', further⟩ := second
  refine ⟨ms ++ ms', ?_⟩
  rw [reachedBy, List.foldl_append]
  change reachedBy move (reachedBy move h ms) ms' = h''
  rw [there]
  exact further

theorem leads_commit (h : History) (document : String) : Leads h (h.commit document) :=
  ⟨[.commit document], rfl⟩

theorem leads_undo? {h h' : History} (moved : h.undo? = some h') : Leads h h' := by
  refine ⟨[.undo], ?_⟩
  simp [reachedBy, move, travel, moved]

theorem leads_redo? {h h' : History} (moved : h.redo? = some h') : Leads h h' := by
  refine ⟨[.redo], ?_⟩
  simp [reachedBy, move, travel, moved]

theorem Leads.stands {initial : String} {depth : Nat} {h : History}
    (led : Leads (start initial depth) h) :
    ∃ z : Zipper, Refines (max depth 1) h z ∧ z.Sound (max depth 1) := by
  obtain ⟨ms, there⟩ := led
  have positive : 0 < max depth 1 := by omega
  have same := (refines_start initial depth).reachedBy positive ms
  rw [there] at same
  exact ⟨_, same, (Zipper.sound_start positive initial).reachedBy positive ms⟩

/-- A zipper leaves no choice for the history that it stands for. -/
theorem Refines.unique {room : Nat} {h h' : History} {z : Zipper} (same : Refines room h z)
    (same' : Refines room h' z) : h = h' := by
  obtain ⟨entries, index, depth⟩ := h
  obtain ⟨entries', index', depth'⟩ := h'
  simp only [History.mk.injEq]
  refine ⟨?_, ?_, ?_⟩
  · exact same.entries.trans same'.entries.symm
  · exact same.index.trans same'.index.symm
  · exact same.depth.trans same'.depth.symm

end ShaderBench.Editing.History

namespace ShaderBench.Editing
open Gpu Param Control Assistant History

inductive Way where
  | edit (document : String) (now : Nat)
  | tick (now : Nat)
  | commit
  | replace (document : String)
  | undo
  | redo
  deriving DecidableEq, Repr

def Session.go (translator : Translator) (s : Session) : Way → Session
  | .edit document now => (s.edit translator document now).1
  | .tick now => (s.tick now).1
  | .commit => s.commit
  | .replace document => s.replace translator document
  | .undo => (s.undo translator).1
  | .redo => (s.redo translator).1

def Operation.way? : Operation → Option Way
  | .edit document now => some (.edit document now)
  | .tick now => some (.tick now)
  | .commit => some .commit
  | .replace document | .finish (.generated (.ok document)) => some (.replace document)
  | .undo | .command .undo => some .undo
  | .redo | .command .redo => some .redo
  | _ => none

/-- Two sessions that agree about the document and what is behind it. -/
structure Session.Still (s s' : Session) : Prop where
  document : s'.document = s.document
  history : s'.history = s.history
  dirtySince : s'.dirtySince = s.dirtySince

namespace Session
variable {translator : Translator}

theorem Still.refl (s : Session) : Still s s := ⟨rfl, rfl, rfl⟩

theorem Still.trans {s s' s'' : Session} (first : Still s s') (second : Still s' s'') :
    Still s s'' := by
  constructor
  · exact second.document.trans first.document
  · exact second.history.trans first.history
  · exact second.dirtySince.trans first.dirtySince

theorem Alike.still {s s' : Session} (alike : Alike s s') : Still s s' :=
  ⟨alike.document, alike.history, alike.dirtySince⟩

theorem still_orElseKeep {ε : Type} {s : Session} {begun : Except ε (Session × Request)}
    (each : ∀ s' r, begun = .ok (s', r) → Alike s s') :
    Still s (orElseKeep s (begun.map Prod.fst)) := by
  cases begun with
  | ok pair => exact (each pair.1 pair.2 rfl).still
  | error e => exact .refl s

theorem replace_still (s : Session) (inFlight : Option RequestKind) (document : String) :
    Still (s.replace translator document)
      ({ s with inFlight }.replace translator document) := by
  rw [replace, replace, refresh_eq, refresh_eq]
  unfold commitDirty
  cases dirty : s.dirtySince <;> simp only [isDirty, dirty] <;> exact ⟨rfl, rfl, rfl⟩

theorem load_history (s : Session) (document : String) :
    (s.load translator document).1.history = s.history := by
  unfold load
  split
  · rfl
  · rw [refresh_eq]

theorem leads_commitDirty (s : Session) : s.history.Leads s.commitDirty.history := by
  unfold commitDirty
  split
  · exact leads_commit s.history s.document
  · exact .refl s.history

theorem leads_go (s : Session) (w : Way) : s.history.Leads (s.go translator w).history := by
  cases w with
  | edit document now =>
    rw [go, edit]
    split
    · exact .refl s.history
    · rw [refresh_eq]
      exact .refl s.history
  | tick now =>
    rw [go, tick_fst]
    split
    · exact leads_commit s.history s.document
    · exact .refl s.history
  | commit => exact leads_commit s.history s.document
  | replace document =>
    rw [go, replace, refresh_eq]
    exact (leads_commitDirty s).trans (leads_commit _ document)
  | undo =>
    rw [go, undo]
    split
    · rw [load_history]
      exact .refl s.history
    · split
      · rename_i h moved
        rw [load_history]
        exact leads_undo? moved
      · exact .refl s.history
  | redo =>
    rw [go, redo]
    split
    · exact .refl s.history
    · split
      · rename_i h moved
        rw [load_history]
        exact leads_redo? moved
      · exact .refl s.history

end Session
end ShaderBench.Editing

namespace ShaderBench.Control.Desk
open Gpu Editing Session
variable {translator : Translator}

theorem apply_still (d : Desk) (c : Command) :
    Still ((Operation.command c).way?.elim d.session (d.session.go translator))
      (d.apply translator c).1.session := by
  cases c with
  | undo =>
    rw [apply_undo, afterLoad_session]
    exact .refl _
  | redo =>
    rw [apply_redo, afterLoad_session]
    exact .refl _
  | _ => exact (apply_alike d Command.noConfusion Command.noConfusion).still

end ShaderBench.Control.Desk

namespace ShaderBench.Editing
open Gpu Param Control Assistant History Session Control.Desk
variable {translator : Translator}

theorem step_still (d : Desk) (o : Operation) :
    Still (o.way?.elim d.session (d.session.go translator)) (step translator d o).session := by
  cases o with
  | edit | tick | commit | replace | undo | redo =>
    rw [Operation.way?, Option.elim_some, go, step]
    exact .refl _
  | setParam name v => exact (setParam_alike d.session name v).still
  | command c => exact apply_still d c
  | beginGeneration prompt =>
    simp only [Operation.way?, Option.elim_none, step]
    exact still_orElseKeep fun _ _ => beginGeneration_alike
  | beginExplain =>
    simp only [Operation.way?, Option.elim_none, step]
    exact still_orElseKeep fun _ _ => beginExplain_alike
  | finish r =>
    cases r with
    | generated reply =>
      cases reply with
      | ok document =>
        rw [Operation.way?, Option.elim_some, go, step, finish]
        exact replace_still d.session none document
      | error e => exact ⟨rfl, rfl, rfl⟩
    | explained text => exact ⟨rfl, rfl, rfl⟩
  | abandon reason => exact (abandon_alike d.session reason).still
  | report alert => exact (report_alike d.session alert).still
  | takeProgram => exact ⟨rfl, rfl, rfl⟩
  | dismiss => exact (dismiss_alike d.session).still

theorem step_leads (d : Desk) (o : Operation) :
    d.session.history.Leads (step translator d o).session.history := by
  rw [(step_still d o).history]
  cases o.way? with
  | none => exact .refl _
  | some w => exact leads_go d.session w

theorem start_history (document : String) (settings : Settings.Editor) :
    (Session.start translator document settings).history =
      .start document settings.historyDepth := by
  rw [Session.start, refresh_eq]

theorem deskAfter_leads (d : Desk) (os : List Operation) :
    d.session.history.Leads (deskAfter translator d os).session.history := by
  induction os generalizing d with
  | nil => exact .refl _
  | cons o os ih => exact (step_leads d o).trans (ih (step translator d o))

end ShaderBench.Editing
