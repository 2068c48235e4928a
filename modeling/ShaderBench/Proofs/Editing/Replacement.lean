import ShaderBench.Proofs.Editing.Past
/-
A document that another one replaces: undo brings it back with all edits that it had, and redo
brings back the other one.
-/
namespace ShaderBench.Editing.History

theorem Zipper.commit_other {room : Nat} {z : Zipper} {document : String} (two : 2 ≤ room)
    (other : document ≠ z.present) :
    z.commit room document = ⟨z.present :: z.past.take (room - 2), document, []⟩ := by
  have more : room - 1 = room - 2 + 1 := by omega
  rw [Zipper.commit, if_neg other, more, List.take_succ_cons]

theorem Refines.moved {room : Nat} {z : Zipper} {way : Option History}
    (ways : Option.Rel (Refines room) way (some z)) : ∃ h, way = some h ∧ Refines room h z := by
  cases ways with
  | some same => exact ⟨_, rfl, same⟩

/-- Undo and redo right after a document has been entered. -/
theorem Refines.entered {room : Nat} {h : History} {z : Zipper} {document : String}
    (two : 2 ≤ room) (same : Refines room h z) (other : document ≠ h.current) :
    ∃ behind, (h.commit document).undo? = some behind ∧ behind.current = h.current ∧
      behind.redo? = some (h.commit document) := by
  have present : h.current = z.present := same.current
  have entered := same.commit (by omega) document
  rw [Zipper.commit_other two (present ▸ other)] at entered
  -- The way back, and then the way forth again.
  obtain ⟨behind, undone, before⟩ := Refines.moved entered.undo?
  obtain ⟨ahead, redone, after⟩ := Refines.moved before.redo?
  rw [after.unique entered] at redone
  exact ⟨behind, undone, before.current.trans present.symm, redone⟩

end ShaderBench.Editing.History

namespace ShaderBench.Editing
open Gpu Param Control Assistant History

/-- Operations that bring no other document. They may still commit the present one. -/
def Operation.stays (o : Operation) : Bool :=
  match o.way? with
  | none | some (.tick _) | some .commit => true
  | some (.edit _ _) | some (.replace _) | some .undo | some .redo => false

namespace Session
variable {translator : Translator}

structure Settled (s : Session) : Prop where
  clean : s.dirtySince = none
  current : s.document = s.history.current

theorem Still.settled {s s' : Session} (still : Still s s') (settled : s.Settled) :
    s'.Settled := by
  constructor
  · exact still.dirtySince.trans settled.clean
  · rw [still.document, still.history]
    exact settled.current

structure Arrives (loaded : Session × Bool) (h : History) : Prop where
  told : loaded.2 = true
  document : loaded.1.document = h.current
  history : loaded.1.history = h
  clean : loaded.1.dirtySince = none

theorem Arrives.settled {loaded : Session × Bool} {h : History} (arrives : Arrives loaded h) :
    loaded.1.Settled := by
  constructor
  · exact arrives.clean
  · rw [arrives.history]
    exact arrives.document

theorem load_arrives {s : Session} (clean : s.dirtySince = none) {h : History}
    (other : h.current ≠ s.document) :
    Arrives ({ s with history := h }.load translator h.current) h := by
  rw [load, if_neg other, refresh_eq]
  exact ⟨rfl, rfl, rfl, clean⟩

theorem undo_arrives {s : Session} {h : History} (clean : s.dirtySince = none)
    (moved : s.history.undo? = some h) (other : h.current ≠ s.document) :
    Arrives (s.undo translator) h := by
  rw [undo, if_neg (not_dirty_iff.mpr clean), moved]
  exact load_arrives clean other

theorem redo_arrives {s : Session} {h : History} (clean : s.dirtySince = none)
    (moved : s.history.redo? = some h) (other : h.current ≠ s.document) :
    Arrives (s.redo translator) h := by
  rw [redo, if_neg (not_dirty_iff.mpr clean), moved]
  exact load_arrives clean other

theorem commitDirty_current {s : Session} (room : 0 < s.history.depth)
    (clean : s.isDirty = false → s.document = s.history.current) :
    s.commitDirty.history.current = s.document := by
  unfold commitDirty
  split
  · exact History.commit_current s.history room s.document
  · rename_i settled
    exact (clean (Bool.not_eq_true _ ▸ settled)).symm

theorem replace_history (s : Session) (document : String) :
    (s.replace translator document).history = s.commitDirty.history.commit document := by
  rw [replace, refresh_eq]
  rfl

theorem replace_clean (s : Session) (document : String) :
    (s.replace translator document).dirtySince = none := by
  rw [replace, refresh_eq]
  rfl

theorem replace_settled {s : Session} (room : 0 < s.history.depth) (document : String) :
    (s.replace translator document).Settled := by
  constructor
  · exact replace_clean s document
  · have kept : 0 < s.commitDirty.history.depth := by
      rw [commitDirty_depth]
      exact room
    rw [replace_document, replace_history]
    exact (History.commit_current _ kept document).symm

theorem replace_entered {seeding : Bool} {initial : String} {depth : Nat} {s : Session}
    {document : String} (two : 2 ≤ depth) (led : (History.start initial depth).Leads s.history)
    (coherent : Coherent translator seeding s) (other : document ≠ s.document) :
    ∃ behind, (s.replace translator document).history.undo? = some behind ∧
      behind.current = s.document ∧
      behind.redo? = some (s.replace translator document).history := by
  obtain ⟨z, refines, _⟩ := (led.trans (leads_commitDirty s)).stands
  have present : s.commitDirty.history.current = s.document :=
    commitDirty_current coherent.room coherent.clean
  have room : 2 ≤ max depth 1 := by omega
  rw [replace_history, ← present]
  exact refines.entered room (present ▸ other)

theorem Settled.commit {s : Session} (settled : s.Settled) : Still s s.commit := by
  constructor
  · rfl
  · rw [Session.commit, History.commit, if_pos settled.current.symm]
  · exact settled.clean.symm

end Session

open Session
variable {translator : Translator}

theorem step_stays {d : Desk} {o : Operation} (settled : d.session.Settled) (stays : o.stays) :
    Still d.session (step translator d o).session := by
  have still := @step_still translator d o
  unfold Operation.stays at stays
  cases way : o.way? with
  | none =>
    rw [way] at still
    exact still
  | some w =>
    rw [way] at still stays
    cases w with
    | tick now =>
      have same : (d.session.tick now).1 = d.session := by rw [tick_clean settled.clean]
      rw [Option.elim_some, go, same] at still
      exact still
    | commit => exact settled.commit.trans still
    | edit | replace | undo | redo => cases stays

theorem deskAfter_stays {d : Desk} {os : List Operation} (settled : d.session.Settled)
    (stay : ∀ o ∈ os, o.stays) : Still d.session (deskAfter translator d os).session := by
  induction os generalizing d with
  | nil => exact .refl d.session
  | cons o os ih =>
    obtain ⟨first, rest⟩ := List.forall_mem_cons.mp stay
    have once : Still d.session (step translator d o).session := step_stays settled first
    exact once.trans (ih (once.settled settled) rest)

theorem step_replaces {d : Desk} {replacement : String} {o : Operation}
    (replaces : o ∈ [.replace replacement, .finish (.generated (.ok replacement))]) :
    Still (d.session.replace translator replacement) (step translator d o).session := by
  have way : o.way? = some (.replace replacement) := by
    rcases List.mem_pair.mp replaces with direct | generated
    · rw [direct]
      rfl
    · rw [generated]
      rfl
  have still := @step_still translator d o
  rw [way, Option.elim_some, go] at still
  exact still

/-- From a settled session undo leads to what is behind it, and redo leads back, also after a while
    in which no other document came. -/
theorem there_and_back {d : Desk} {behind : History} (settled : d.session.Settled)
    (back : d.session.history.undo? = some behind)
    (forth : behind.redo? = some d.session.history) (other : behind.current ≠ d.session.document)
    {later : List Operation} (stay : ∀ o ∈ later, o.stays) :
    let undone := d.session.undo translator
    let rested := deskAfter translator { d with session := undone.1 } later
    Arrives undone behind ∧ Arrives (rested.session.redo translator) d.session.history := by
  intro undone rested
  have there : Arrives undone behind := undo_arrives settled.clean back other
  have unmoved : Still undone.1 rested.session :=
    @deskAfter_stays translator { d with session := undone.1 } later there.settled stay
  refine ⟨there, redo_arrives (unmoved.settled there.settled).clean ?_ ?_⟩
  · rw [unmoved.history, there.history]
    exact forth
  · rw [← settled.current, unmoved.document, there.document]
    exact Ne.symm other

/-- In every state of a session with room for two documents, whatever its edits and wherever it
    stands in its history: once another document has replaced the present one, on request or as
    generated, undo brings back the one that was there and redo the other one, whatever else is
    done in between. -/
theorem replacement_undone (translator : Translator) (document : String)
    (settings : Settings.Editor) (cursor : Cursor) (two : 2 ≤ settings.historyDepth)
    (os : List Operation) (replacement : String) (o : Operation)
    (replaces : o ∈ [.replace replacement, .finish (.generated (.ok replacement))])
    (meanwhile later : List Operation) (stay : ∀ o ∈ meanwhile ++ later, o.stays) :
    let d := deskAfter translator ⟨.start translator document settings, cursor⟩ os
    replacement ≠ d.session.document →
      let replaced := deskAfter translator (step translator d o) meanwhile
      let undone := replaced.session.undo translator
      let rested := deskAfter translator { replaced with session := undone.1 } later
      let redone := rested.session.redo translator
      replaced.session.document = replacement ∧
        undone.2 = true ∧ undone.1.document = d.session.document ∧
        redone.2 = true ∧ redone.1.document = replacement ∧
        redone.1.history = replaced.session.history := by
  intro d other replaced undone rested redone
  have coherent : Coherent translator settings.seeding d.session :=
    deskAfter_coherent (start_coherent document settings) os
  have led : (History.start document settings.historyDepth).Leads d.session.history := by
    rw [← @start_history translator]
    exact deskAfter_leads ⟨.start translator document settings, cursor⟩ os
  obtain ⟨behind, back, present, forth⟩ := replace_entered two led coherent other
  -- The replacement is committed, and stays as it is meanwhile.
  have settled : (d.session.replace translator replacement).Settled :=
    replace_settled coherent.room replacement
  have put : Still (d.session.replace translator replacement) (step translator d o).session :=
    step_replaces replaces
  have kept : Still (d.session.replace translator replacement) replaced.session :=
    put.trans (deskAfter_stays (put.settled settled) fun o listed =>
      stay o (List.mem_append_left _ listed))
  have document : replaced.session.document = replacement := by
    rw [kept.document, replace_document]
  rw [← kept.history] at back forth
  have differs : behind.current ≠ replaced.session.document := by
    rw [present, document]
    exact Ne.symm other
  obtain ⟨there, again⟩ := there_and_back (kept.settled settled) back forth differs fun o listed =>
    stay o (List.mem_append_right meanwhile listed)
  refine ⟨document, there.told, ?_, again.told, ?_, again.history⟩
  · exact there.document.trans present
  · exact again.document.trans ((kept.settled settled).current.symm.trans document)

/-- With room for two documents, an edit that is not committed comes back from behind a generated
    document, though it was made on top of an undo. -/
theorem edit_after_undo_back :
    let translator : Translator := fun _ => .invalid ""
    let settings : Settings.Editor := ⟨2, 750, false, true⟩
    let before : List Operation := [.edit "b" 0, .commit, .command .undo]
    let d := deskAfter translator ⟨.start translator "a" settings, .home⟩
      (before ++ [.edit "c" 1])
    let generated : Operation := .finish (.generated (.ok "d"))
    2 ≤ settings.historyDepth ∧ d.session.document = "c" ∧ "d" ≠ d.session.document ∧
      let replaced :=
        deskAfter translator (step translator d generated) [.command .increase, .tick 2]
      let undone := replaced.session.undo translator
      let rested := deskAfter translator { replaced with session := undone.1 } [.commit]
      let redone := rested.session.redo translator
      replaced.session.document = "d" ∧ undone.2 = true ∧
        undone.1.document = d.session.document ∧ redone.2 = true ∧ redone.1.document = "d" ∧
        redone.1.history = replaced.session.history := by
  intro translator settings before d generated
  have edited : d.session.document = "c" := by
    simp only [d, deskAfter_concat]
    exact step_edit _ "c" 1
  have other : "d" ≠ d.session.document := by
    rw [edited]
    decide
  have undoable := replacement_undone translator "a" settings .home (by decide)
    (before ++ [.edit "c" 1]) "d" generated (by simp [generated]) [.command .increase, .tick 2]
    [.commit] (by simp [Operation.stays, Operation.way?])
  have whole := undoable other
  exact ⟨by decide, edited, other, whole⟩

end ShaderBench.Editing
