import ShaderBench.Proofs.Editing.Debounce
/-
Undo and redo in every state of a run: when they lead to another document, when nothing comes of
them, and that each of them takes the other back.
-/
namespace ShaderBench.Editing.History

/-- Undo leads from one place to another exactly where redo leads back. -/
theorem Zipper.undo?_iff_redo? (z z' : Zipper) : z.undo? = some z' ↔ z'.redo? = some z := by
  constructor
  · intro back
    obtain ⟨past, present, future⟩ := z
    cases past with
    | nil => cases back
    | cons document past =>
      cases back
      rfl
  · intro forth
    obtain ⟨past, present, future⟩ := z'
    cases future with
    | nil => cases forth
    | cons document future =>
      cases forth
      rfl

theorem Zipper.Sound.apart {room : Nat} {z z' : Zipper} (sound : z.Sound room)
    (back : z.undo? = some z') : z'.present ≠ z.present := by
  obtain ⟨past, present, future⟩ := z
  cases past with
  | nil => cases back
  | cons document past =>
    cases back
    have differ := sound.differ
    rw [Zipper.documents, List.reverse_cons, List.append_assoc] at differ
    exact (List.isChain_cons_cons.mp differ.right_of_append).1

theorem Refines.moves {room : Nat} {h : History} {way : Option Zipper}
    (ways : Option.Rel (Refines room) (some h) way) : ∃ z, way = some z ∧ Refines room h z := by
  cases ways with
  | some same => exact ⟨_, rfl, same⟩

section Neighbours
variable {initial : String} {depth : Nat} {h h' : History}

theorem Leads.undone (led : (start initial depth).Leads h) (back : h.undo? = some h') :
    h'.current ≠ h.current ∧ h'.redo? = some h := by
  obtain ⟨z, same, sound⟩ := led.stands
  obtain ⟨z', back', same'⟩ := Refines.moves (back ▸ same.undo?)
  have forth : z'.redo? = some z := (Zipper.undo?_iff_redo? z z').mp back'
  obtain ⟨again, redone, there⟩ := Refines.moved (forth ▸ same'.redo?)
  constructor
  · rw [same'.current, same.current]
    exact sound.apart back'
  · rw [redone, there.unique same]

theorem Leads.redone (led : (start initial depth).Leads h) (forth : h.redo? = some h') :
    h'.current ≠ h.current ∧ h'.undo? = some h := by
  obtain ⟨z, same, sound⟩ := led.stands
  obtain ⟨z', forth', same'⟩ := Refines.moves (forth ▸ same.redo?)
  have back : z'.undo? = some z := (Zipper.undo?_iff_redo? z' z).mpr forth'
  obtain ⟨again, undone, there⟩ := Refines.moved (back ▸ same'.undo?)
  have documents : z'.documents = z.documents := Zipper.redo?_documents forth'
  have sound' : z'.Sound (max depth 1) := ⟨documents ▸ sound.fits, documents ▸ sound.differ⟩
  constructor
  · rw [same'.current, same.current]
    exact Ne.symm (sound'.apart back)
  · rw [undone, there.unique same]

end Neighbours

theorem undo?_isSome (h : History) : h.undo?.isSome = h.canUndo := by
  unfold undo?
  cases h.canUndo <;> rfl

theorem redo?_isSome (h : History) : h.redo?.isSome = h.canRedo := by
  unfold redo?
  cases h.canRedo <;> rfl

end ShaderBench.Editing.History

namespace ShaderBench.Editing
open Gpu Param Control Assistant History Session

namespace Session
variable {translator : Translator}

theorem load_told (s : Session) (document : String) :
    (s.load translator document).2 = true ↔ document ≠ s.document := by
  unfold load
  split <;> simp_all

theorem load_changed {s : Session} {document : String}
    (told : (s.load translator document).2 = true) :
    (s.load translator document).1.document ≠ s.document := by
  have other : document ≠ s.document := (load_told s document).mp told
  rw [load, if_neg other, refresh_eq]
  exact other

theorem undo_changed {s : Session} (told : (s.undo translator).2 = true) :
    (s.undo translator).1.document ≠ s.document := by
  unfold undo at told ⊢
  split at told
  · rename_i dirty
    rw [if_pos dirty]
    exact load_changed told
  · rename_i clean
    rw [if_neg clean]
    split at told
    · exact load_changed told
    · cases told

theorem redo_changed {s : Session} (told : (s.redo translator).2 = true) :
    (s.redo translator).1.document ≠ s.document := by
  unfold redo at told ⊢
  split at told
  · cases told
  · rename_i clean
    rw [if_neg clean]
    split at told
    · exact load_changed told
    · cases told

theorem undo_dirty {s : Session} (dirty : s.isDirty = true) :
    (s.undo translator).2 = true ↔ s.document ≠ s.history.current := by
  rw [undo, if_pos dirty, load_told]
  exact ne_comm

/-- An edit back to what was committed is reverted to that. -/
theorem undo_swallows {s : Session} (dirty : s.isDirty = true)
    (current : s.document = s.history.current) :
    s.undo translator = ({ s with dirtySince := none }, false) := by
  rw [undo, if_pos dirty, load, if_pos current.symm]

theorem redo_dirty {s : Session} (dirty : s.isDirty = true) : s.redo translator = (s, false) := by
  rw [redo, if_pos dirty]

section Settled
variable {initial : String} {depth : Nat} {s : Session}

theorem Settled.undo_told (settled : s.Settled)
    (led : (History.start initial depth).Leads s.history) :
    (s.undo translator).2 = true ↔ s.history.canUndo = true := by
  rw [← undo?_isSome]
  cases back : s.history.undo? with
  | none =>
    rw [undo, if_neg (not_dirty_iff.mpr settled.clean), back]
    rfl
  | some h =>
    have other : h.current ≠ s.document := settled.current ▸ (led.undone back).1
    have there : Arrives (s.undo translator) h := undo_arrives settled.clean back other
    exact iff_of_true there.told rfl

theorem Settled.redo_told (settled : s.Settled)
    (led : (History.start initial depth).Leads s.history) :
    (s.redo translator).2 = true ↔ s.history.canRedo = true := by
  rw [← redo?_isSome]
  cases forth : s.history.redo? with
  | none =>
    rw [redo, if_neg (not_dirty_iff.mpr settled.clean), forth]
    rfl
  | some h =>
    have other : h.current ≠ s.document := settled.current ▸ (led.redone forth).1
    have there : Arrives (s.redo translator) h := redo_arrives settled.clean forth other
    exact iff_of_true there.told rfl

theorem Settled.returns (settled : s.Settled) {loaded : Session × Bool}
    (arrives : Arrives loaded s.history) : loaded.2 = true ∧ Still s loaded.1 := by
  refine ⟨arrives.told, ?_, arrives.history, arrives.clean.trans settled.clean.symm⟩
  rw [arrives.document, settled.current]

theorem Settled.undo_redo (settled : s.Settled)
    (led : (History.start initial depth).Leads s.history) (told : (s.undo translator).2 = true) :
    let again := (s.undo translator).1.redo translator
    again.2 = true ∧ Still s again.1 := by
  intro again
  have behind : s.history.undo?.isSome = true :=
    (undo?_isSome s.history).trans ((settled.undo_told led).mp told)
  obtain ⟨h, back⟩ := Option.isSome_iff_exists.mp behind
  obtain ⟨other, forth⟩ := led.undone back
  rw [← settled.current] at other
  have there : Arrives (s.undo translator) h := undo_arrives settled.clean back other
  refine settled.returns (redo_arrives there.clean (there.history ▸ forth) ?_)
  rw [there.document, ← settled.current]
  exact Ne.symm other

theorem Settled.redo_undo (settled : s.Settled)
    (led : (History.start initial depth).Leads s.history) (told : (s.redo translator).2 = true) :
    let again := (s.redo translator).1.undo translator
    again.2 = true ∧ Still s again.1 := by
  intro again
  have ahead : s.history.redo?.isSome = true :=
    (redo?_isSome s.history).trans ((settled.redo_told led).mp told)
  obtain ⟨h, forth⟩ := Option.isSome_iff_exists.mp ahead
  obtain ⟨other, back⟩ := led.redone forth
  rw [← settled.current] at other
  have there : Arrives (s.redo translator) h := redo_arrives settled.clean forth other
  refine settled.returns (undo_arrives there.clean (there.history ▸ back) ?_)
  rw [there.document, ← settled.current]
  exact Ne.symm other

end Settled

theorem step_commit (d : Desk) : (step translator d .commit).session = d.session.commit := rfl

theorem Settled.away_and_back {d : Desk} (settled : d.session.Settled) {away : String}
    (other : away ≠ d.session.document) (now later : Nat) :
    let s := (deskAfter translator d [.edit away now, .edit d.session.document later]).session
    s.document = d.session.document ∧ s.history = d.session.history ∧
      s.undo translator = ({ s with dirtySince := none }, false) := by
  intro s
  let gone := step translator d (.edit away now)
  have edited : gone.session.document = away := step_edit d away now
  obtain ⟨dirty, kept⟩ :=
    @step_change translator gone d.session.document later (edited ▸ Ne.symm other)
  have document : s.document = d.session.document := step_edit gone d.session.document later
  have history : s.history = d.session.history := kept.trans (step_change other).2
  refine ⟨document, history, undo_swallows (congrArg Option.isSome dirty) ?_⟩
  rw [document, history]
  exact settled.current

end Session

/-- In every state of a run undo leads to another document exactly if the one that is there is not
    what was committed last, or no edit waits for its commit and something stands behind; redo does
    exactly if no edit waits and something stands ahead. Then each of them takes the other back.
    All that undo does about an edit that ended where it began is to forget it; from then on it
    leads on as ever. -/
theorem ways_lead_on (translator : Translator) (document : String) (settings : Settings.Editor)
    (cursor : Cursor) (os : List Operation) :
    let s := (deskAfter translator ⟨.start translator document settings, cursor⟩ os).session
    let undone := s.undo translator
    let redone := s.redo translator
    (undone.2 = true ↔
        s.document ≠ s.history.current ∨ s.isDirty = false ∧ s.history.canUndo = true) ∧
      (redone.2 = true ↔ s.isDirty = false ∧ s.history.canRedo = true) ∧
      (undone.2 = true ↔ undone.1.document ≠ s.document) ∧
      (redone.2 = true ↔ redone.1.document ≠ s.document) ∧
      (s.isDirty = false → undone.2 = true →
        let again := undone.1.redo translator
        again.2 = true ∧ Still s again.1) ∧
      (s.isDirty = false → redone.2 = true →
        let again := redone.1.undo translator
        again.2 = true ∧ Still s again.1) ∧
      (s.isDirty = true → s.document = s.history.current →
        undone = ({ s with dirtySince := none }, false) ∧
          ((undone.1.undo translator).2 = true ↔ s.history.canUndo = true)) := by
  intro s undone redone
  have coherent : Coherent translator settings.seeding s :=
    deskAfter_coherent (start_coherent document settings) os
  have led : (History.start document settings.historyDepth).Leads s.history := by
    rw [← @start_history translator]
    exact deskAfter_leads ⟨.start translator document settings, cursor⟩ os
  have settled : s.isDirty = false → s.Settled := by
    intro clean
    exact ⟨not_dirty_iff.mp (Bool.eq_false_iff.mp clean), coherent.clean clean⟩
  refine ⟨?_, ?_, ?_, ?_, ?_, ?_, ?_⟩
  · cases dirty : s.isDirty with
    | true =>
      simp only [Bool.true_eq_false, false_and, or_false]
      exact undo_dirty dirty
    | false =>
      have current : s.document = s.history.current := coherent.clean dirty
      simp only [current, ne_eq, not_true_eq_false, true_and, false_or]
      exact (settled dirty).undo_told led
  · cases dirty : s.isDirty with
    | true => simp [redone, redo_dirty dirty]
    | false =>
      simp only [true_and]
      exact (settled dirty).redo_told led
  · refine ⟨undo_changed, ?_⟩
    intro other
    exact (Bool.not_eq_false _).mp (other ∘ undo_kept)
  · refine ⟨redo_changed, ?_⟩
    intro other
    exact (Bool.not_eq_false _).mp (other ∘ redo_kept)
  · intro clean told
    exact (settled clean).undo_redo led told
  · intro clean told
    exact (settled clean).redo_undo led told
  · intro dirty current
    have forgotten : undone = ({ s with dirtySince := none }, false) := undo_swallows dirty current
    have rested : Settled { s with dirtySince := none } := ⟨rfl, current⟩
    refine ⟨forgotten, ?_⟩
    rw [forgotten]
    exact rested.undo_told led

/-- An edit away from what is committed and an edit back take the next undo, though there is an
    entry that it could lead to. -/
theorem undo_swallowed :
    let translator : Translator := fun _ => .invalid ""
    let settings : Settings.Editor := ⟨2, 750, false, true⟩
    let d := deskAfter translator ⟨.start translator "a" settings, .home⟩ [.edit "b" 0, .commit]
    let s := (deskAfter translator d [.edit "c" 1, .edit "b" 2]).session
    s.history.canUndo = true ∧ s.document = "b" ∧
      (s.undo translator).2 = false ∧ (s.undo translator).1.document = "b" := by
  intro translator settings
  -- From here on only what is known of the session that is started counts, not what it computes.
  obtain ⟨start, begun⟩ : ∃ start : Desk, start = ⟨.start translator "a" settings, .home⟩ :=
    ⟨_, rfl⟩
  rw [← begun]
  intro d
  let first := step translator start (.edit "b" 0)
  have committed : d.session = first.session.commit := @step_commit translator first
  have document : first.session.document = "b" := step_edit start "b" 0
  have history : first.session.history = History.start "a" 2 := by
    have other : "b" ≠ start.session.document := by
      rw [begun, start_document]
      decide
    rw [(step_change other).2, begun, start_history]
  have there : d.session.document = "b" := by
    rw [committed, commit_document, document]
  have behind : d.session.history = (History.start "a" 2).commit "b" := by
    rw [committed, Session.commit, history, document]
  have settled : d.session.Settled := by
    constructor
    · rw [committed]
      rfl
    · rw [there, behind]
      decide
  intro s
  have swallowed := @Settled.away_and_back translator d settled "c" (by rw [there]; decide) 1 2
  rw [there] at swallowed
  obtain ⟨back, kept, forgotten⟩ := swallowed
  have undone : s.undo translator = ({ s with dirtySince := none }, false) := forgotten
  refine ⟨?_, back, ?_, ?_⟩
  · rw [kept, behind]
    decide
  · rw [undone]
  · rw [undone]
    exact back

end ShaderBench.Editing
