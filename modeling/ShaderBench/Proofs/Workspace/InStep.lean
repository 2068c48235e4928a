import ShaderBench.Proofs.Editing.Kept
import ShaderBench.Proofs.Workspace.WriteBack
/-
The file and the document in step: where the watch is told of every write, the file holds the
document, or a change of it is noticed that is not reported yet. What the session itself has
written is no news to it.
-/
namespace ShaderBench.Files.Watcher

theorem concerns_ofPath {w : Watcher} {p : Path} (named : w.name = p.fileName?) (n : Notice) :
    w.concerns n = (ofPath p).concerns n := by
  unfold concerns
  rw [named]
  rfl

end ShaderBench.Files.Watcher

namespace ShaderBench.Workspace
open Control Editing Files Assistant Gpu
variable {translator : Translator}

def Event.foreign : Event → Bool
  | .write _ => true
  | _ => false

def writes (translator : Translator) (w : Workspace) (e : Event) : Bool :=
  e.foreign || w.saves translator e

/-- An event, with the notice that the watch is given if the event writes the file. -/
structure Noticed where
  event : Event
  notice : Notice

def noticed (translator : Translator) (w : Workspace) (m : Noticed) : Workspace :=
  if w.writes translator m.event then (w.step translator m.event).notify m.notice
  else w.step translator m.event

def runNoticed (translator : Translator) (w : Workspace) (ms : List Noticed) : Workspace :=
  ms.foldl (noticed translator) w

structure SameFile (w w' : Workspace) : Prop where
  writeBack : w'.writeBack = w.writeBack
  path : w'.path = w.path
  watched : w'.watcher.map Watcher.name = w.watcher.map Watcher.name

theorem SameFile.refl (w : Workspace) : SameFile w w := ⟨rfl, rfl, rfl⟩

theorem SameFile.trans {w w' w'' : Workspace} (first : SameFile w w') (second : SameFile w' w'') :
    SameFile w w'' :=
  ⟨second.writeBack.trans first.writeBack, second.path.trans first.path,
    second.watched.trans first.watched⟩

theorem SameFile.save {w w' : Workspace} (same : SameFile w w') : SameFile w w'.save := by
  obtain ⟨files, alert, saved⟩ := save_eq w'
  rw [saved]
  exact ⟨same.writeBack, same.path, same.watched⟩

theorem sameFile_checkFile (w : Workspace) (now : Nat) :
    SameFile w (w.checkFile translator now).1 := by
  obtain ⟨session, _, same⟩ := @checkFile_checked translator w now
  rw [same]
  refine ⟨rfl, rfl, ?_⟩
  simp only [Option.map_map]
  rfl

theorem sameFile_step (w : Workspace) (e : Event) : SameFile w (w.step translator e) := by
  cases e with
  | command c =>
    rw [step, command]
    dsimp only
    split
    · exact ⟨rfl, rfl, rfl⟩
    · exact ⟨rfl, rfl, rfl⟩
    · exact SameFile.save ⟨rfl, rfl, rfl⟩
    · unfold submit
      split <;> exact ⟨rfl, rfl, rfl⟩
    · exact ⟨rfl, rfl, rfl⟩
    · exact ⟨rfl, rfl, rfl⟩
  | checkFile now => exact sameFile_checkFile w now
  | receive =>
    rcases @receive_cases translator w with ⟨_, same⟩ | ⟨r, worker, _, received⟩
    · rw [step, same]
      exact .refl w
    · rw [step, received, finish]
      split
      · exact SameFile.save ⟨rfl, rfl, rfl⟩
      · exact ⟨rfl, rfl, rfl⟩
  | write text =>
    rw [step, overwrite]
    split <;> exact ⟨rfl, rfl, rfl⟩
  | notify n =>
    refine ⟨rfl, rfl, ?_⟩
    simp only [step, notify, Option.map_map]
    rfl
  | _ => exact ⟨rfl, rfl, rfl⟩

theorem step_kept {w : Workspace} {e : Event} (on : w.writeBack = true) (inside : e.inside)
    (unsaved : w.saves translator e = false) :
    (w.step translator e).session.document = w.session.document := by
  cases e with
  | write | checkFile | notify => cases inside
  | command c =>
    rw [saves, on, Bool.true_and, decide_eq_false_iff_not] at unsaved
    have kept := Desk.apply_kept unsaved
    rw [step, command]
    dsimp only
    split
    · exact kept
    · exact kept
    · rename_i changed
      exact absurd changed unsaved
    · unfold submit
      split
      · exact kept
      · exact kept
    · exact kept
    · exact kept
  | receive =>
    rcases @receive_cases translator w with ⟨_, same⟩ | ⟨r, worker, next, received⟩
    · rw [step, same]
    · rw [saves, on, Bool.true_and, next, Option.any_some] at unsaved
      have kept := Session.finish_kept unsaved
      have unchanged : (({ w with worker } : Workspace).session.finish translator r).2 = false :=
        unsaved
      rw [step, received, finish]
      rw [if_neg (Bool.eq_false_iff.mp unchanged)]
      exact kept
  | tick now => exact Session.tick_document w.session now
  | _ => rfl

structure Watching (p : Path) (w : Workspace) : Prop where
  writeBack : w.writeBack = true
  watched : w.watcher.map Watcher.name = some p.fileName?

theorem Watching.same {p : Path} {w w' : Workspace} (watching : Watching p w)
    (same : SameFile w w') : Watching p w' :=
  ⟨same.writeBack.trans watching.writeBack, same.watched.trans watching.watched⟩

theorem Watching.concerned {p : Path} {w : Workspace} (watching : Watching p w) {n : Notice}
    (told : (Watcher.ofPath p).concerns n) : w.watcher.any (·.concerns n) := by
  obtain ⟨watcher, held, named⟩ := Option.map_eq_some_iff.mp watching.watched
  rw [held, Option.any_some, Watcher.concerns_ofPath named]
  exact told

theorem sameFile_noticed (w : Workspace) (m : Noticed) : SameFile w (w.noticed translator m) := by
  have after : SameFile w (w.step translator m.event) := sameFile_step w m.event
  unfold noticed
  split
  · have told : SameFile w ((w.step translator m.event).step translator (.notify m.notice)) :=
      after.trans (sameFile_step _ _)
    exact told
  · exact after

/-- The file holds the document, or the watch is to report a change of it. -/
def InStep (w : Workspace) : Prop :=
  ∃ text, w.files.read w.path = .ok text ∧ (text = w.session.document ∨ w.awaits = true)

theorem InStep.notify {w : Workspace} (inStep : w.InStep) (n : Notice) : (w.notify n).InStep := by
  obtain ⟨text, readable, newest⟩ := inStep
  exact ⟨text, readable, newest.imp_right fun awaits => awaits_notify (.inl awaits)⟩

theorem InStep.checked {w : Workspace} (inStep : w.InStep) (now : Nat) :
    (w.step translator (.checkFile now)).InStep := by
  obtain ⟨text, readable, newest⟩ := inStep
  cases reports : w.reports now with
  | true =>
    have reloaded := @checkFile_reports translator w text now readable reports
    rw [reloaded]
    exact ⟨text, readable, .inl (w.session.edit_document text now).symm⟩
  | false =>
    refine ⟨text, ?_, ?_⟩
    · rw [checkFile_waits reports]
      exact readable
    · rcases newest with same | awaits
      · left
        rw [checkFile_waits reports]
        exact same
      · exact .inr (awaits_checkFile reports awaits)

theorem InStep.unwritten {w : Workspace} (inStep : w.InStep) (on : w.writeBack = true) {e : Event}
    (unwritten : w.writes translator e = false) : (w.step translator e).InStep := by
  obtain ⟨own, unsaved⟩ := Bool.or_eq_false_iff.mp unwritten
  have aside : e.inside → (w.step translator e).InStep := by
    intro inside
    obtain ⟨text, readable, newest⟩ := inStep
    have same : Aside w (w.step translator e) := step_aside inside unsaved
    refine ⟨text, ?_, ?_⟩
    · rw [same.files, same.path]
      exact readable
    · rw [step_kept on inside unsaved, awaits, same.watcher]
      exact newest
  cases e with
  | write text => cases own
  | notify n => exact inStep.notify n
  | checkFile now => exact inStep.checked now
  | _ => exact aside rfl

/-- A write from outside or a save keeps them in step, as the watch is told of it. -/
theorem InStep.written {p : Path} {w : Workspace} (inStep : w.InStep) (watching : Watching p w)
    {e : Event} (writes : w.writes translator e = true) {n : Notice}
    (told : (Watcher.ofPath p).concerns n) : ((w.step translator e).notify n).InStep := by
  obtain ⟨old, readable, _⟩ := inStep
  rcases Bool.or_eq_true_iff.mp writes with foreign | saves
  · cases e with
    | write text =>
      obtain ⟨files, written, reads⟩ := Folder.write_read readable text
      have after : Watching p (w.step translator (.write text)) :=
        watching.same (sameFile_step w _)
      refine ⟨text, ?_, .inr (awaits_notify (.inr (after.concerned told)))⟩
      simp only [step, overwrite, written, Workspace.notify]
      exact reads
    | _ => cases foreign
  -- After a save the two agree without the notice.
  · exact InStep.notify ⟨_, saved_reads readable saves, .inl rfl⟩ n

theorem InStep.noticed {p : Path} {w : Workspace} (inStep : w.InStep) (watching : Watching p w)
    {m : Noticed} (told : (Watcher.ofPath p).concerns m.notice) :
    (w.noticed translator m).InStep := by
  unfold Workspace.noticed
  split
  · rename_i writes
    exact inStep.written watching writes told
  · rename_i unwritten
    exact inStep.unwritten watching.writeBack (Bool.eq_false_iff.mpr unwritten)

theorem inStep_run {p : Path} {w : Workspace} (inStep : w.InStep) (watching : Watching p w)
    {ms : List Noticed} (told : ∀ m ∈ ms, (Watcher.ofPath p).concerns m.notice = true) :
    (w.runNoticed translator ms).InStep := by
  -- Every event leaves the name that is watched, so the notices concern the watch of each state.
  induction ms generalizing w with
  | nil => exact inStep
  | cons m ms ih =>
    obtain ⟨first, rest⟩ := List.forall_mem_cons.mp told
    have next : (w.noticed translator m).InStep := inStep.noticed watching first
    exact ih next (watching.same (sameFile_noticed w m)) rest

theorem save_clean {w : Workspace} (clean : w.session.dirtySince = none) :
    w.save.session.dirtySince = none := by
  obtain ⟨files, alert, saved⟩ := save_eq w
  rw [saved]
  exact clean

theorem step_clean {w : Workspace} {e : Event} (clean : w.session.dirtySince = none)
    (inside : e.inside) : (w.step translator e).session.dirtySince = none := by
  cases e with
  | write | checkFile | notify => cases inside
  | command c =>
    have applied : (w.desk.apply translator c).1.session.dirtySince = none :=
      Desk.apply_clean clean c
    rw [step, command]
    dsimp only
    split
    · exact applied
    · exact applied
    · exact save_clean applied
    · unfold submit
      split
      · exact applied
      · exact applied
    · exact applied
    · exact applied
  | receive =>
    rcases @receive_cases translator w with ⟨_, same⟩ | ⟨r, worker, _, received⟩
    · rw [step, same]
      exact clean
    · have finished : (w.session.finish translator r).1.dirtySince = none :=
        Session.finish_clean clean r
      rw [step, received, finish]
      split
      · exact save_clean finished
      · exact finished
  | tick now =>
    rw [step, tick, Session.tick_clean clean]
    exact clean
  | _ => exact clean

structure Alone (w : Workspace) : Prop where
  reads : w.files.read w.path = .ok w.session.document
  clean : w.session.dirtySince = none

theorem Alone.reload {w : Workspace} (alone : w.Alone) (now : Nat) :
    (w.step translator (.checkFile now)).session = w.session := by
  cases reports : w.reports now with
  | true =>
    have reloaded := @checkFile_reports translator w _ now alone.reads reports
    rw [reloaded, Session.edit_same]
    rfl
  | false =>
    rw [checkFile_waits reports]
    rfl

theorem Alone.step {w : Workspace} (alone : w.Alone) (on : w.writeBack = true) {e : Event}
    (own : e.foreign = false) : (w.step translator e).Alone := by
  have inside : e.inside → (w.step translator e).Alone := by
    intro inside
    refine ⟨?_, step_clean alone.clean inside⟩
    cases saves : w.saves translator e with
    | true => exact saved_reads alone.reads saves
    | false =>
      have same : Aside w (w.step translator e) := step_aside inside saves
      rw [same.files, same.path, step_kept on inside saves]
      exact alone.reads
  cases e with
  | write text => cases own
  | notify n => exact ⟨alone.reads, alone.clean⟩
  | checkFile now =>
    have files : (w.step translator (.checkFile now)).files = w.files :=
      (files_unsaved rfl).resolve_left fun ⟨_, same⟩ => nomatch same
    refine ⟨?_, ?_⟩
    · rw [files, (sameFile_step w _).path, alone.reload now]
      exact alone.reads
    · rw [alone.reload now]
      exact alone.clean
  | _ => exact inside rfl

theorem alone_run {w : Workspace} (alone : w.Alone) (on : w.writeBack = true) {ms : List Noticed}
    (own : ∀ m ∈ ms, m.event.foreign = false) : (w.runNoticed translator ms).Alone := by
  induction ms generalizing w with
  | nil => exact alone
  | cons m ms ih =>
    obtain ⟨first, rest⟩ := List.forall_mem_cons.mp own
    have after : (w.step translator m.event).Alone := alone.step on first
    have next : (w.noticed translator m).Alone := by
      unfold noticed
      split
      · exact ⟨after.reads, after.clean⟩
      · exact after
    exact ih next ((sameFile_noticed w m).writeBack.trans on) rest

section Poll
variable (w : Workspace) (n : Notice)

theorem save_notify : (w.notify n).save = w.save.notify n := by
  cases on : w.writeBack with
  | false =>
    have off : (w.notify n).save = w.notify n := save_off on
    rw [off, save_off on]
  | true =>
    cases written : w.files.write w.path w.session.document <;>
      simp only [save, notify, session, setSession, on, if_true] at written ⊢ <;>
      simp only [written]

theorem finish_notify (r : Response) :
    (w.notify n).finish translator r = (w.finish translator r).notify n := by
  cases changed : (w.session.finish translator r).2 with
  | false =>
    simp only [finish, notify, session, setSession] at changed ⊢
    simp [changed]
  | true =>
    simp only [finish, notify, session, setSession] at changed ⊢
    simp only [changed, if_true]
    exact save_notify (w.setSession (w.session.finish translator r).1) n

theorem receive_notify :
    (w.notify n).receive translator = (w.receive translator).notify n := by
  cases held : w.worker with
  | none => simp only [receive, notify, held]
  | some worker =>
    obtain ⟨waiting, current, done⟩ := worker
    cases done with
    | nil => simp only [receive, notify, held]
    | cons r done =>
      simp only [receive, notify, held]
      exact finish_notify { w with worker := some ⟨waiting, current, done⟩ } n r

theorem receives_notify (count : Nat) :
    (w.notify n).run translator (List.replicate count .receive) =
      (w.run translator (List.replicate count .receive)).notify n := by
  induction count generalizing w with
  | zero => rfl
  | succ count ih =>
    have first : (w.notify n).run translator (List.replicate (count + 1) .receive) =
        ((w.notify n).receive translator).run translator (List.replicate count .receive) := rfl
    rw [first, receive_notify]
    exact ih (w.receive translator)

end Poll

/-- The watch may as well be told of the saves when all responses have been taken in. -/
theorem noticed_receives (ns : List Notice) (w : Workspace) :
    ∃ told : List Notice, told.Sublist ns ∧
      w.runNoticed translator (ns.map fun n => ⟨.receive, n⟩) =
        told.foldl notify (w.run translator (List.replicate ns.length .receive)) := by
  induction ns generalizing w with
  | nil => exact ⟨[], List.Sublist.slnil, rfl⟩
  | cons n ns ih =>
    obtain ⟨told, among, rest⟩ := ih (w.noticed translator ⟨.receive, n⟩)
    -- Only a response that is written is told of, and its notice moves past the later ones.
    have run : w.runNoticed translator ((n :: ns).map fun n => ⟨.receive, n⟩) =
        told.foldl notify ((w.noticed translator ⟨.receive, n⟩).run translator
          (List.replicate ns.length .receive)) := rest
    rw [run]
    unfold noticed
    dsimp only
    split
    · refine ⟨n :: told, among.cons_cons n, ?_⟩
      rw [receives_notify]
      rfl
    · exact ⟨told, among.cons n, rfl⟩

/-- A whole poll is a run of its parts, with a notice for each of its saves. -/
theorem poll_noticed (w : Workspace) (now : Nat) (first second : Notice) {ns : List Notice}
    (each : ns.length = w.worker.elim 0 (·.done.length)) :
    ∃ told : List Notice, told.Sublist ns ∧
      w.runNoticed translator
          (⟨.checkFile now, first⟩ :: ⟨.tick now, second⟩ :: ns.map fun n => ⟨.receive, n⟩) =
        told.foldl notify (w.poll translator now).1 := by
  rw [poll_eq, ← each]
  exact noticed_receives ns ((w.step translator (.checkFile now)).step translator (.tick now))

/-- The document of a file that is watched and written to, as long as the watch is told of every
    write: the file holds the document, or the watch is to report a change of it. If nothing else
    writes the file, the session is never dirty and no reload changes anything of it. -/
theorem file_in_step (translator : Translator) (setting : Setting) (document : String)
    (settings : Settings.Editor) (on : settings.writeBack = true) (watched : setting.watched = true)
    (readable : setting.files.read setting.path = .ok document) (ms : List Noticed)
    (told : ∀ m ∈ ms, (Watcher.ofPath setting.path).concerns m.notice = true) :
    let w := (start translator setting document settings).runNoticed translator ms
    w.InStep ∧
      ((∀ m ∈ ms, m.event.foreign = false) → w.session.isDirty = false ∧
        ∀ now, (w.step translator (.checkFile now)).session = w.session) := by
  intro w
  have opened : (start translator setting document settings).session =
      Session.start translator document settings := start_session setting document settings
  have reads : (start translator setting document settings).files.read
      (start translator setting document settings).path =
        .ok (start translator setting document settings).session.document := by
    rw [opened, start_document]
    exact readable
  refine ⟨?_, ?_⟩
  · have watching : Watching setting.path (start translator setting document settings) := by
      refine ⟨on, ?_⟩
      rw [start, if_pos watched]
      rfl
    exact inStep_run ⟨_, reads, .inl rfl⟩ watching told
  · intro own
    have clean : (start translator setting document settings).session.dirtySince = none := by
      rw [opened, Session.start, Session.refresh_eq]
    have alone : w.Alone := alone_run ⟨reads, clean⟩ on own
    exact ⟨congrArg Option.isSome alone.clean, alone.reload⟩

theorem own_answer_reloaded :
    let translator : Translator := fun glsl => .accepted (String.ofList glsl)
    let events : List Event := [.command (.submitPrompt "gain"), .begin, .reply (.ok gainShader),
      .receive, .checkFile 0, .checkFile settlingTime]
    let w := (start translator (shaderSetting plainShader) plainShader ⟨100, 750, false, true⟩)
      |>.runNoticed translator (events.map fun e => ⟨e, ["shader.hlsl"]⟩)
    w.InStep ∧ w.session.isDirty = false ∧
      ∀ now, (w.step translator (.checkFile now)).session = w.session := by
  intro translator events w
  have inStep := file_in_step translator (shaderSetting plainShader) plainShader
    ⟨100, 750, false, true⟩ rfl rfl (read_shaderSetting plainShader)
    (events.map fun e => ⟨e, ["shader.hlsl"]⟩) (by decide +kernel)
  exact ⟨inStep.1, inStep.2 (by decide)⟩

end ShaderBench.Workspace
