import Mathlib.Data.List.Basic
import ShaderBench.Proofs.Editing.Run
/-
Coherence of a session: its document, its history, its parameters, its error and its newest
program belong together in every state that a run can reach.
-/
namespace ShaderBench

/-- A parameter as its declaration makes it, without its live value. -/
def Param.Parameter.unset (p : Parameter) : Parameter := { p with value := p.default }

namespace Param

theorem reconcile_unset (previous extracted : List Parameter) :
    (reconcile previous extracted).map Parameter.unset = extracted.map Parameter.unset := by
  simp only [reconcile, List.map_map]
  apply List.map_congr_left
  intro p _
  simp only [Function.comp_apply, Parameter.unset]
  split <;> rfl

theorem set_unset {p p' : Parameter} {v : Value} (done : p.set v = .ok p') :
    p'.unset = p.unset := by
  unfold Parameter.set at done
  split at done
  · cases done
    rfl
  · cases done

theorem setNamed_unset {name : String} {v : Value} {ps ps' : List Parameter}
    (done : setNamed name v ps = .ok ps') :
    ps'.map Parameter.unset = ps.map Parameter.unset := by
  induction ps generalizing ps' with
  | nil => cases done
  | cons p ps ih =>
    unfold setNamed at done
    split at done
    · cases attempt : p.set v with
      | error e => simp [attempt, Except.map] at done
      | ok p' =>
        simp only [attempt, Except.map, Except.ok.injEq] at done
        subst done
        simp [set_unset attempt]
    · cases attempt : setNamed name v ps with
      | error e => simp [attempt, Except.map] at done
      | ok rest =>
        simp only [attempt, Except.map, Except.ok.injEq] at done
        subst done
        simp [ih attempt]

theorem adjust_unset {p p' : Parameter} {component : Nat} {d : Direction}
    (done : p.adjust component d = .changed p') : p'.unset = p.unset := by
  unfold Parameter.adjust at done
  split at done
  · cases done
  · cases done
  · split at done
    · cases done
    · cases done
      rfl

theorem map_unset_put {ps : List Parameter} {i : Nat} {p p' : Parameter} (at_i : ps[i]? = some p)
    (same : p'.unset = p.unset) :
    (ps.set i p').map Parameter.unset = ps.map Parameter.unset := by
  apply List.ext_getElem?
  intro j
  simp only [List.map_set, List.getElem?_map, List.getElem?_set, List.length_map]
  split
  · rename_i here
    subst here
    obtain ⟨inside, here⟩ := List.getElem?_eq_some_iff.mp at_i
    simp [inside, here, same]
  · rfl

end Param

namespace Editing
open Gpu Param Control Assistant
variable {translator : Translator}

namespace History

theorem newest_append_last {depth : Nat} (room : 0 < depth) (entries : List String)
    (document : String) : ∃ older, newest depth (entries ++ [document]) = older ++ [document] := by
  have within : entries.length + 1 - depth ≤ entries.length := by omega
  refine ⟨entries.drop (entries.length + 1 - depth), ?_⟩
  simp only [newest, List.length_append, List.length_singleton]
  exact List.drop_append_of_le_length within

theorem commit_current (h : History) (room : 0 < h.depth) (document : String) :
    (h.commit document).current = document := by
  unfold commit
  split
  · assumption
  · obtain ⟨older, kept⟩ := newest_append_last room (h.entries.take (h.index + 1)) document
    simp [enter, current, kept]

@[simp] theorem commit_depth (h : History) (document : String) :
    (h.commit document).depth = h.depth := by
  unfold commit
  split <;> rfl

theorem undo?_depth {h h' : History} (moved : h.undo? = some h') : h'.depth = h.depth := by
  unfold undo? at moved
  split at moved
  · cases moved
    rfl
  · cases moved

theorem redo?_depth {h h' : History} (moved : h.redo? = some h') : h'.depth = h.depth := by
  unfold redo? at moved
  split at moved
  · cases moved
    rfl
  · cases moved

end History

namespace Session

theorem afterCompile_eq (s : Session) (result : Except CompileError Program) :
    s.afterCompile result =
      { s with
        pending := result.toOption.or s.pending
        error := errorOf? result
        explanation := if result.toOption.isSome then none else s.explanation } := by
  cases result <;> rfl

theorem refresh_eq (s : Session) :
    refresh translator s =
      { s with
        params := reconcile s.params (extract s.seeding s.documentChars)
        revision := s.revision + 1
        pending := (compiled? translator s.document).or s.pending
        error := complaint? translator s.document
        explanation := if (compiled? translator s.document).isSome then none else s.explanation } := by
  rw [refresh, recompile, afterCompile_eq]
  rfl

/-- What holds of a session between two operations. -/
structure Coherent (translator : Translator) (seeding : Bool) (s : Session) : Prop where
  room : 0 < s.history.depth
  option : s.seeding = seeding
  clean : s.isDirty = false → s.document = s.history.current
  params : s.params.map Parameter.unset = (extract seeding s.documentChars).map Parameter.unset
  error : s.error = complaint? translator s.document

theorem not_dirty_iff {s : Session} : ¬ s.isDirty = true ↔ s.dirtySince = none := by
  simp [isDirty]

/-- Two sessions that differ in notes, requests and live values only. -/
structure Alike (s s' : Session) : Prop where
  document : s'.document = s.document
  history : s'.history = s.history
  dirtySince : s'.dirtySince = s.dirtySince
  option : s'.seeding = s.seeding
  params : s'.params.map Parameter.unset = s.params.map Parameter.unset
  pending : s'.pending = s.pending
  error : s'.error = s.error

/-- How the pending program follows the document: both stay, or the document is compiled anew. -/
def Follows (translator : Translator) (s s' : Session) : Prop :=
  (s'.document = s.document ∧ s'.pending = s.pending) ∨
    s'.pending = (compiled? translator s'.document).or s.pending

/-- What every operation but the taking of a program does. -/
structure Advances (translator : Translator) (s s' : Session) : Prop where
  coherent : ∀ {seeding}, Coherent translator seeding s → Coherent translator seeding s'
  follows : Follows translator s s'

theorem Alike.refl (s : Session) : Alike s s := ⟨rfl, rfl, rfl, rfl, rfl, rfl, rfl⟩

theorem Alike.advances {s s' : Session} (alike : Alike s s') : Advances translator s s' where
  coherent := by
    intro seeding c
    refine ⟨?_, ?_, ?_, ?_, ?_⟩
    · rw [alike.history]; exact c.room
    · rw [alike.option]; exact c.option
    · rw [isDirty, alike.dirtySince, alike.document, alike.history]; exact c.clean
    · rw [alike.params, documentChars, alike.document]; exact c.params
    · rw [alike.error, alike.document]; exact c.error
  follows := .inl ⟨alike.document, alike.pending⟩

theorem advances_refl (s : Session) : Advances translator s s := (Alike.refl s).advances

theorem refresh_advances {s s' : Session} (depth : s'.history.depth = s.history.depth)
    (option : s'.seeding = s.seeding) (pending : s'.pending = s.pending)
    (clean : 0 < s.history.depth → s'.isDirty = false → s'.document = s'.history.current) :
    Advances translator s (refresh translator s') where
  coherent := by
    intro seeding c
    have option' : s'.seeding = seeding := option.trans c.option
    rw [refresh_eq]
    refine ⟨?_, option', clean c.room, ?_, rfl⟩
    · rw [depth]; exact c.room
    · rw [reconcile_unset, option', documentChars, documentChars]
  follows := by
    right
    rw [refresh_eq, ← pending]

theorem edit_document (s : Session) (document : String) (now : Nat) :
    (s.edit translator document now).1.document = document := by
  unfold edit
  split
  · rename_i same
    exact same.symm
  · rw [refresh_eq]

theorem edit_advances (s : Session) (document : String) (now : Nat) :
    Advances translator s (s.edit translator document now).1 := by
  unfold edit
  split
  · exact advances_refl s
  · apply refresh_advances
    · rfl
    · rfl
    · rfl
    · intro _ clean
      cases clean

theorem commit_advances (s : Session) : Advances translator s s.commit where
  coherent := by
    intro seeding c
    refine ⟨?_, c.option, ?_, c.params, c.error⟩
    · rw [commit, History.commit_depth]; exact c.room
    · intro _
      exact (History.commit_current s.history c.room s.document).symm
  follows := .inl ⟨rfl, rfl⟩

theorem tick_fst (s : Session) (now : Nat) :
    (s.tick now).1 = if (s.tick now).2 then s.commit else s := by
  unfold tick
  split
  · split <;> rfl
  · rfl

theorem tick_advances (s : Session) (now : Nat) :
    Advances translator s (s.tick now).1 := by
  rw [tick_fst]
  split
  · exact commit_advances s
  · exact advances_refl s

theorem commitDirty_depth (s : Session) : s.commitDirty.history.depth = s.history.depth := by
  unfold commitDirty
  split
  · exact History.commit_depth s.history s.document
  · rfl

theorem commitDirty_seeding (s : Session) : s.commitDirty.seeding = s.seeding := by
  unfold commitDirty
  split <;> rfl

theorem commitDirty_pending (s : Session) : s.commitDirty.pending = s.pending := by
  unfold commitDirty
  split <;> rfl

theorem replace_advances (s : Session) (document : String) :
    Advances translator s (s.replace translator document) := by
  apply refresh_advances
  · exact (History.commit_depth _ _).trans (commitDirty_depth s)
  · exact commitDirty_seeding s
  · exact commitDirty_pending s
  · intro room _
    rw [← commitDirty_depth] at room
    exact (History.commit_current _ room document).symm

theorem load_advances (s s' : Session) (depth : s'.history.depth = s.history.depth)
    (same : s' = { s with history := s'.history, dirtySince := none }) :
    Advances translator s (s'.load translator s'.history.current).1 := by
  unfold load
  split
  · rename_i here
    refine ⟨?_, ?_⟩
    · intro seeding c
      rw [same]
      refine ⟨?_, c.option, ?_, c.params, c.error⟩
      · exact depth ▸ c.room
      · intro _
        rw [here, same]
    · left
      rw [same]
      exact ⟨rfl, rfl⟩
  · apply refresh_advances
    · exact depth
    · rw [same]
    · rw [same]
    · intro _ _
      rfl

theorem undo_advances (s : Session) : Advances translator s (s.undo translator).1 := by
  unfold undo
  split
  · exact load_advances s { s with dirtySince := none } rfl rfl
  · rename_i clean
    split
    · rename_i history moved
      have settled : s.dirtySince = none := not_dirty_iff.mp clean
      apply load_advances s { s with history }
      · exact History.undo?_depth moved
      · rw [← settled]
    · exact advances_refl s

theorem redo_advances (s : Session) : Advances translator s (s.redo translator).1 := by
  unfold redo
  split
  · exact advances_refl s
  · rename_i clean
    split
    · rename_i history moved
      have settled : s.dirtySince = none := not_dirty_iff.mp clean
      apply load_advances s { s with history }
      · exact History.redo?_depth moved
      · rw [← settled]
    · exact advances_refl s

theorem changeParams_alike {s : Session} {params : List Parameter}
    (same : params.map Parameter.unset = s.params.map Parameter.unset) :
    Alike s (s.changeParams params) := ⟨rfl, rfl, rfl, rfl, same, rfl, rfl⟩

theorem setParam_alike (s : Session) (name : String) (v : Value) :
    Alike s (orElseKeep s (s.setParam name v)) := by
  unfold setParam
  cases attempt : setNamed name v s.params with
  | error e => exact .refl s
  | ok params => exact changeParams_alike (setNamed_unset attempt)

theorem beginGeneration_alike {s s' : Session} {prompt : String} {r : Request}
    (begun : s.beginGeneration prompt = .ok (s', r)) : Alike s s' := by
  unfold beginGeneration at begun
  dsimp only at begun
  split at begun
  · cases begun
  · split at begun
    · cases begun
    · cases begun
      exact ⟨rfl, rfl, rfl, rfl, rfl, rfl, rfl⟩

theorem beginExplain_alike {s s' : Session} {r : Request}
    (begun : s.beginExplain = .ok (s', r)) : Alike s s' := by
  unfold beginExplain at begun
  split at begun
  · cases begun
  · split at begun
    · cases begun
    · cases begun
      exact ⟨rfl, rfl, rfl, rfl, rfl, rfl, rfl⟩

theorem report_alike (s : Session) (alert : String) : Alike s (s.report alert) :=
  ⟨rfl, rfl, rfl, rfl, rfl, rfl, rfl⟩

theorem abandon_alike (s : Session) (reason : String) : Alike s (s.abandon reason) :=
  ⟨rfl, rfl, rfl, rfl, rfl, rfl, rfl⟩

theorem dismiss_alike (s : Session) : Alike s s.dismiss :=
  ⟨rfl, rfl, rfl, rfl, rfl, rfl, rfl⟩

theorem Advances.of_idle {s s' : Session}
    (advances : Advances translator { s with inFlight := none } s') :
    Advances translator s s' where
  coherent := by
    intro seeding c
    exact advances.coherent ⟨c.room, c.option, c.clean, c.params, c.error⟩
  follows := advances.follows

theorem finish_advances (s : Session) (r : Response) :
    Advances translator s (s.finish translator r).1 := by
  apply Advances.of_idle
  unfold finish
  cases r with
  | generated reply =>
    cases reply with
    | ok document => exact replace_advances _ document
    | error e => exact (report_alike _ _).advances
  | explained text => exact Alike.advances ⟨rfl, rfl, rfl, rfl, rfl, rfl, rfl⟩

end Session

end Editing

namespace Control.Desk
open Gpu Param Editing Session Assistant
variable {translator : Translator}

theorem putSelected_alike {d : Desk} {p p' : Parameter}
    (selected : d.cursor.selected d.params = some p) (same : p'.unset = p.unset) :
    Alike d.session (d.putSelected p').session :=
  changeParams_alike (map_unset_put selected same)

theorem adjust_alike (d : Desk) (direction : Direction) :
    Alike d.session (d.adjust direction).1.session := by
  unfold adjust
  split
  · exact .refl _
  · rename_i p selected
    split
    · rename_i p' moved
      exact putSelected_alike selected (adjust_unset moved)
    · exact putSelected_alike selected rfl
    · exact putSelected_alike selected rfl

theorem reset_alike (d : Desk) : Alike d.session d.reset.1.session := by
  unfold reset
  split
  · exact .refl _
  · rename_i p selected
    exact putSelected_alike selected rfl

theorem afterLoad_session (d : Desk) (loaded : Session × Bool) :
    (d.afterLoad loaded).1.session = loaded.1 := by
  unfold afterLoad
  dsimp only
  split <;> rfl

theorem afterBegin_alike (d : Desk) {begun : Except NoRequest (Session × Request)}
    (alike : ∀ s' r, begun = .ok (s', r) → Alike d.session s') :
    Alike d.session (d.afterBegin begun).1.session := by
  cases begun with
  | ok pair => exact alike pair.1 pair.2 rfl
  | error e => exact report_alike d.session e.message

theorem apply_undo (d : Desk) :
    d.apply translator .undo = d.clampCursor.afterLoad (d.session.undo translator) := rfl

theorem apply_redo (d : Desk) :
    d.apply translator .redo = d.clampCursor.afterLoad (d.session.redo translator) := rfl

theorem apply_alike (d : Desk) {c : Command} (undo : c ≠ .undo) (redo : c ≠ .redo) :
    Alike d.session (d.apply translator c).1.session := by
  change Alike d.clampCursor.session _
  unfold apply
  generalize d.clampCursor = d
  cases c with
  | undo => exact absurd rfl undo
  | redo => exact absurd rfl redo
  | increase => exact adjust_alike d .up
  | decrease => exact adjust_alike d .down
  | resetParam => exact reset_alike d
  | submitPrompt text =>
    dsimp only
    exact afterBegin_alike d fun _ _ => beginGeneration_alike
  | explainError =>
    dsimp only
    exact afterBegin_alike d fun _ _ => beginExplain_alike
  | dismiss => exact dismiss_alike d.session
  | quit | togglePause | restartTime | movePointer | openPrompt | nextParam | prevParam
  | nextComponent => exact .refl d.session

theorem apply_cases (d : Desk) (c : Command) :
    c = .undo ∨ c = .redo ∨ Alike d.session (d.apply translator c).1.session := by
  by_cases undo : c = .undo
  · exact .inl undo
  · by_cases redo : c = .redo
    · exact .inr (.inl redo)
    · exact .inr (.inr (apply_alike d undo redo))

theorem apply_advances (d : Desk) (c : Command) :
    Advances translator d.session (d.apply translator c).1.session := by
  rcases @apply_cases translator d c with undo | redo | alike
  · rw [undo, apply_undo, afterLoad_session]
    exact undo_advances d.session
  · rw [redo, apply_redo, afterLoad_session]
    exact redo_advances d.session
  · exact alike.advances

end Control.Desk

namespace Editing
open Gpu Param Control Assistant Session Control.Desk
variable {translator : Translator}

theorem step_advances (d : Desk) (o : Operation) (keeps : o ≠ .takeProgram) :
    Advances translator d.session (step translator d o).session := by
  cases o with
  | edit document now => exact edit_advances d.session document now
  | tick now => exact tick_advances d.session now
  | commit => exact commit_advances d.session
  | replace document => exact replace_advances d.session document
  | undo => exact undo_advances d.session
  | redo => exact redo_advances d.session
  | setParam name v => exact (setParam_alike d.session name v).advances
  | command c => exact apply_advances d c
  | beginGeneration prompt =>
    cases begun : d.session.beginGeneration prompt with
    | ok pair =>
      simp only [step, begun]
      exact (beginGeneration_alike begun).advances
    | error e =>
      simp only [step, begun]
      exact advances_refl d.session
  | beginExplain =>
    cases begun : d.session.beginExplain with
    | ok pair =>
      simp only [step, begun]
      exact (beginExplain_alike begun).advances
    | error e =>
      simp only [step, begun]
      exact advances_refl d.session
  | finish r => exact finish_advances d.session r
  | abandon reason => exact (abandon_alike d.session reason).advances
  | report alert => exact (report_alike d.session alert).advances
  | takeProgram => exact absurd rfl keeps
  | dismiss => exact (dismiss_alike d.session).advances

/-- What holds of the record of every run. -/
structure Record.Sound (translator : Translator) (seeding : Bool) (r : Record) : Prop where
  coherent : Coherent translator seeding r.session
  present : r.documents.head? = some r.session.document
  newest : r.newest = r.lastCompiled translator

theorem findSome?_cons_or {α β : Type} (f : α → Option β) (a : α) (as : List α) :
    (a :: as).findSome? f = (f a).or (as.findSome? f) := by
  rw [List.findSome?_cons]
  cases f a <;> rfl

theorem Record.lastCompiled_present {seeding : Bool} {r : Record}
    (sound : r.Sound translator seeding) :
    (compiled? translator r.session.document).or (r.lastCompiled translator) =
      r.lastCompiled translator := by
  obtain ⟨earlier, documents⟩ := List.head?_eq_some_iff.mp sound.present
  simp only [lastCompiled, documents, findSome?_cons_or, ← Option.or_assoc, Option.or_self]

theorem Record.lastCompiled_next (r : Record) (o : Operation) :
    (r.next translator o).lastCompiled translator =
      (compiled? translator (step translator r.desk o).session.document).or
        (r.lastCompiled translator) :=
  findSome?_cons_or _ _ _

theorem Record.Sound.next_take {seeding : Bool} {r : Record}
    (sound : r.Sound translator seeding) : (r.next translator .takeProgram).Sound translator seeding where
  coherent := by
    have c := sound.coherent
    exact ⟨c.room, c.option, c.clean, c.params, c.error⟩
  present := rfl
  newest := by
    rw [lastCompiled_next]
    refine Eq.trans ?_ (lastCompiled_present sound).symm
    rw [← sound.newest]
    simp only [Record.newest, Record.next, Record.session, step, handed, takeProgram]
    cases r.desk.session.pending <;> rfl

theorem Record.Sound.next_other {seeding : Bool} {r : Record} {o : Operation}
    (sound : r.Sound translator seeding) (keeps : o ≠ .takeProgram) :
    (r.next translator o).Sound translator seeding where
  coherent := (step_advances r.desk o keeps).coherent sound.coherent
  present := rfl
  newest := by
    have untaken : handed r.desk o = none := by
      cases o <;> first | rfl | exact absurd rfl keeps
    rw [lastCompiled_next]
    have advances : Advances translator r.desk.session (step translator r.desk o).session :=
      step_advances r.desk o keeps
    rcases advances.follows with ⟨document, pending⟩ | pending
    · rw [document]
      refine Eq.trans ?_ (lastCompiled_present sound).symm
      rw [← sound.newest]
      simp [Record.newest, Record.next, Record.session, untaken, pending]
    · rw [← sound.newest]
      simp [Record.newest, Record.next, Record.session, untaken, pending, Option.or_assoc]

theorem Record.Sound.next {seeding : Bool} {r : Record} (sound : r.Sound translator seeding)
    (o : Operation) : (r.next translator o).Sound translator seeding := by
  by_cases takes : o = .takeProgram
  · subst takes
    exact sound.next_take
  · exact sound.next_other takes

theorem start_coherent (document : String) (settings : Settings.Editor) :
    Coherent translator settings.seeding (Session.start translator document settings) := by
  rw [Session.start, refresh_eq]
  refine ⟨?_, rfl, fun _ => rfl, ?_, rfl⟩
  · exact Nat.lt_of_lt_of_le Nat.zero_lt_one (Nat.le_max_right _ _)
  · exact reconcile_unset [] _

theorem start_document (document : String) (settings : Settings.Editor) :
    (Session.start translator document settings).document = document := by
  rw [Session.start, refresh_eq]

theorem start_pending (document : String) (settings : Settings.Editor) :
    (Session.start translator document settings).pending = compiled? translator document := by
  rw [Session.start, refresh_eq]
  exact Option.or_none

theorem Record.Sound.start {seeding : Bool} {d : Desk}
    (coherent : Coherent translator seeding d.session)
    (pending : d.session.pending = compiled? translator d.session.document) :
    (Record.start d).Sound translator seeding where
  coherent := coherent
  present := rfl
  newest := by
    simp only [Record.newest, Record.lastCompiled, Record.start, Record.session, pending,
      findSome?_cons_or, List.head?_nil, List.findSome?_nil]

theorem start_sound (document : String) (settings : Settings.Editor) (cursor : Cursor) :
    (Record.start ⟨Session.start translator document settings, cursor⟩).Sound translator
      settings.seeding := by
  apply Record.Sound.start
  · exact start_coherent document settings
  · change (Session.start translator document settings).pending = _
    rw [start_pending, start_document]

/-- In every state of every run a session that is not dirty holds the document of its history, its
    parameters are those of its document but for their live values, its error is that of its
    document, and the newest program is that of the last document that compiled. -/
theorem session_coherent (translator : Translator) (document : String)
    (settings : Settings.Editor) (cursor : Cursor) (os : List Operation) :
    let r := Record.run translator ⟨Session.start translator document settings, cursor⟩ os
    (r.session.isDirty = false → r.session.document = r.session.history.current) ∧
      r.session.params.map Parameter.unset =
        (extract settings.seeding r.session.documentChars).map Parameter.unset ∧
      r.session.error = complaint? translator r.session.document ∧
      r.newest = r.lastCompiled translator := by
  intro r
  have sound : r.Sound translator settings.seeding :=
    run_invariant (start_sound document settings cursor) (fun _ o sound => sound.next o) os
  exact ⟨sound.coherent.clean, sound.coherent.params, sound.coherent.error, sound.newest⟩

end Editing
end ShaderBench
