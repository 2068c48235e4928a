import ShaderBench.Proofs.Editing.Coherence
/-
What is left alone: an operation that tells of no other document keeps the one that is there, and
only an edit from outside makes a session dirty.
-/
namespace ShaderBench.Editing.Session
open Gpu Assistant
variable {translator : Translator}

theorem edit_same (s : Session) (now : Nat) : s.edit translator s.document now = (s, false) :=
  if_pos rfl

theorem replace_document (s : Session) (document : String) :
    (s.replace translator document).document = document := by
  rw [replace, refresh_eq]
  rfl

theorem tick_document (s : Session) (now : Nat) : (s.tick now).1.document = s.document := by
  rw [tick_fst]
  split <;> rfl

theorem load_kept {s : Session} {document : String}
    (kept : (s.load translator document).2 = false) : (s.load translator document).1 = s := by
  unfold load at kept ⊢
  split
  · rfl
  · rename_i other
    rw [if_neg other] at kept
    cases kept

theorem undo_idle {s : Session} (kept : (s.undo translator).2 = false) :
    ∃ history dirtySince, (s.undo translator).1 = { s with history, dirtySince } := by
  unfold undo at kept ⊢
  split at kept
  · rename_i dirty
    rw [if_pos dirty, load_kept kept]
    exact ⟨_, _, rfl⟩
  · rename_i clean
    rw [if_neg clean]
    split at kept
    · rw [load_kept kept]
      exact ⟨_, _, rfl⟩
    · exact ⟨_, _, rfl⟩

theorem redo_idle {s : Session} (kept : (s.redo translator).2 = false) :
    ∃ history dirtySince, (s.redo translator).1 = { s with history, dirtySince } := by
  unfold redo at kept ⊢
  split at kept
  · rename_i dirty
    rw [if_pos dirty]
    exact ⟨_, _, rfl⟩
  · rename_i clean
    rw [if_neg clean]
    split at kept
    · rw [load_kept kept]
      exact ⟨_, _, rfl⟩
    · exact ⟨_, _, rfl⟩

theorem undo_kept {s : Session} (kept : (s.undo translator).2 = false) :
    (s.undo translator).1.document = s.document := by
  obtain ⟨history, dirtySince, same⟩ := undo_idle kept
  rw [same]

theorem redo_kept {s : Session} (kept : (s.redo translator).2 = false) :
    (s.redo translator).1.document = s.document := by
  obtain ⟨history, dirtySince, same⟩ := redo_idle kept
  rw [same]

theorem finish_kept {s : Session} {r : Response} (kept : (s.finish translator r).2 = false) :
    (s.finish translator r).1.document = s.document := by
  cases r with
  | explained text => rfl
  | generated document =>
    cases document with
    | error e => rfl
    | ok document =>
      have same : document = s.document := not_not.mp (of_decide_eq_false kept)
      rw [finish, replace_document]
      exact same

theorem load_dirtySince (s : Session) (document : String) :
    (s.load translator document).1.dirtySince = s.dirtySince := by
  unfold load
  split
  · rfl
  · rw [refresh_eq]

theorem undo_clean {s : Session} (clean : s.dirtySince = none) :
    (s.undo translator).1.dirtySince = none := by
  unfold undo
  split
  · exact load_dirtySince _ _
  · split
    · exact (load_dirtySince _ _).trans clean
    · exact clean

theorem redo_clean {s : Session} (clean : s.dirtySince = none) :
    (s.redo translator).1.dirtySince = none := by
  unfold redo
  split
  · exact clean
  · split
    · exact (load_dirtySince _ _).trans clean
    · exact clean

theorem tick_clean {s : Session} (clean : s.dirtySince = none) (now : Nat) : s.tick now = (s, false) := by
  rw [tick, clean]

theorem finish_clean {s : Session} (clean : s.dirtySince = none) (r : Response) :
    (s.finish translator r).1.dirtySince = none := by
  cases r with
  | explained text => exact clean
  | generated document =>
    cases document with
    | error e => exact clean
    | ok document =>
      rw [finish, replace, refresh_eq]
      rfl

end ShaderBench.Editing.Session

namespace ShaderBench.Control.Desk
open Param Gpu Editing Session Assistant
variable {translator : Translator}

theorem afterLoad_outcome (d : Desk) (loaded : Session × Bool) :
    (d.afterLoad loaded).2 ≠ .documentChanged ↔ loaded.2 = false := by
  unfold afterLoad
  cases loaded.2 <;> simp

/-- A command that does not tell of another document leaves the document alone. -/
theorem apply_kept {d : Desk} {c : Command} (kept : (d.apply translator c).2 ≠ .documentChanged) :
    (d.apply translator c).1.session.document = d.session.document := by
  rcases @apply_cases translator d c with undo | redo | alike
  · rw [undo, apply_undo] at kept ⊢
    rw [afterLoad_session]
    exact undo_kept ((afterLoad_outcome _ _).mp kept)
  · rw [redo, apply_redo] at kept ⊢
    rw [afterLoad_session]
    exact redo_kept ((afterLoad_outcome _ _).mp kept)
  · exact alike.document

theorem apply_clean {d : Desk} (clean : d.session.dirtySince = none) (c : Command) :
    (d.apply translator c).1.session.dirtySince = none := by
  rcases @apply_cases translator d c with undo | redo | alike
  · rw [undo, apply_undo, afterLoad_session]
    exact undo_clean clean
  · rw [redo, apply_redo, afterLoad_session]
    exact redo_clean clean
  · exact alike.dirtySince.trans clean

end ShaderBench.Control.Desk
