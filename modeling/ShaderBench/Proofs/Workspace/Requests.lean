import ShaderBench.Proofs.Editing.Effect
import ShaderBench.Proofs.Workspace.Run
/-
Requests to the text service: at most one is under way, and the session knows of it until its
response is taken in.
-/
namespace ShaderBench
open Control Editing Assistant Gpu Files

namespace Assistant

def Response.kind : Response → RequestKind
  | .generated _ => .generate
  | .explained _ => .explain

theorem answer_kind (r : Request) (reply : Reply) : (r.answer reply).kind = r.kind := by
  cases r <;> rfl

namespace Worker

def kinds (w : Worker) : List RequestKind :=
  w.done.map Response.kind ++ (w.current.toList ++ w.waiting).map Request.kind

@[simp] theorem kinds_submit (w : Worker) (r : Request) :
    (w.submit r).kinds = w.kinds ++ [r.kind] := by
  simp [kinds, submit]

@[simp] theorem kinds_begin (w : Worker) : w.begin.kinds = w.kinds := by
  unfold begin
  split
  · rename_i r rest current waiting
    simp [kinds, current, waiting]
  · rfl

@[simp] theorem kinds_reply (w : Worker) (reply : Reply) : (w.reply reply).kinds = w.kinds := by
  unfold Worker.reply
  split
  · rename_i r current
    simp [kinds, current, answer_kind]
  · rfl

end Worker
end Assistant

namespace Editing.Session
variable {translator : Translator}

@[simp] theorem refresh_inFlight (s : Session) : (s.refresh translator).inFlight = s.inFlight := by
  rw [refresh_eq]

@[simp] theorem load_inFlight (s : Session) (document : String) :
    (s.load translator document).1.inFlight = s.inFlight := by
  unfold load
  split
  · rfl
  · exact refresh_inFlight _

theorem edit_inFlight (s : Session) (document : String) (now : Nat) :
    (s.edit translator document now).1.inFlight = s.inFlight := by
  unfold edit
  split
  · rfl
  · exact refresh_inFlight _

theorem tick_inFlight (s : Session) (now : Nat) : (s.tick now).1.inFlight = s.inFlight := by
  rw [tick_fst]
  split <;> rfl

theorem undo_inFlight (s : Session) : (s.undo translator).1.inFlight = s.inFlight := by
  unfold undo
  split
  · exact load_inFlight _ _
  · split
    · exact load_inFlight _ _
    · rfl

theorem redo_inFlight (s : Session) : (s.redo translator).1.inFlight = s.inFlight := by
  unfold redo
  split
  · rfl
  · split
    · exact load_inFlight _ _
    · rfl

theorem replace_inFlight (s : Session) (document : String) :
    (s.replace translator document).inFlight = s.inFlight := by
  unfold replace commitDirty
  refine (refresh_inFlight _).trans ?_
  split <;> rfl

theorem finish_inFlight (s : Session) (r : Response) :
    (s.finish translator r).1.inFlight = none := by
  cases r with
  | generated document =>
    cases document with
    | ok document => exact replace_inFlight { s with inFlight := none } document
    | error e => rfl
  | explained text => rfl

/-- Two sessions that differ at most in notes and requests. -/
structure Untouched (s s' : Session) : Prop where
  document : s'.document = s.document
  history : s'.history = s.history
  dirtySince : s'.dirtySince = s.dirtySince
  params : s'.params = s.params
  pending : s'.pending = s.pending
  error : s'.error = s.error

end Editing.Session

namespace Control.Desk
open Param Session
variable {translator : Translator}

theorem adjust_inFlight (d : Desk) (direction : Direction) :
    (d.adjust direction).1.session.inFlight = d.session.inFlight ∧
      ∀ r, (d.adjust direction).2 ≠ .request r := by
  unfold adjust
  split
  · exact ⟨rfl, by rintro r ⟨⟩⟩
  · split <;> exact ⟨rfl, by rintro r ⟨⟩⟩

theorem reset_inFlight (d : Desk) :
    d.reset.1.session.inFlight = d.session.inFlight ∧ ∀ r, d.reset.2 ≠ .request r := by
  unfold reset
  split <;> exact ⟨rfl, by rintro r ⟨⟩⟩

theorem afterLoad_inFlight (d : Desk) (loaded : Session × Bool) :
    (d.afterLoad loaded).1.session.inFlight = loaded.1.inFlight ∧
      ∀ r, (d.afterLoad loaded).2 ≠ .request r := by
  unfold afterLoad
  dsimp only
  split <;> exact ⟨rfl, by rintro r ⟨⟩⟩

inductive Attempt (s : Session) : Desk × Outcome → Prop where
  | sent (cursor : Cursor) (alert : Option String) (r : Request) (idle : s.inFlight = none) :
      Attempt s (⟨{ s with inFlight := some r.kind, alert }, cursor⟩, .request r)
  | refused (cursor : Cursor) (reason : String) : Attempt s (⟨s.report reason, cursor⟩, .nothing)

theorem attempt_submitPrompt (d : Desk) (text : String) :
    Attempt d.session (d.apply translator (.submitPrompt text)) := by
  unfold apply
  dsimp only [afterBegin]
  cases begun : d.clampCursor.session.beginGeneration text with
  | error e => exact .refused d.clampCursor.cursor e.message
  | ok pair =>
    obtain ⟨s', r⟩ := pair
    obtain ⟨idle, same⟩ := beginGeneration_eq begun
    subst same
    exact .sent _ none r idle

theorem attempt_explainError (d : Desk) :
    Attempt d.session (d.apply translator .explainError) := by
  unfold apply
  dsimp only [afterBegin]
  cases begun : d.clampCursor.session.beginExplain with
  | error e => exact .refused d.clampCursor.cursor e.message
  | ok pair =>
    obtain ⟨s', r⟩ := pair
    obtain ⟨idle, same⟩ := beginExplain_eq begun
    subst same
    exact .sent _ d.session.alert r idle

def asks : Command → Bool
  | .submitPrompt _ | .explainError => true
  | _ => false

theorem attempt_asking (d : Desk) {c : Command} (asking : asks c) :
    Attempt d.session (d.apply translator c) := by
  cases c with
  | submitPrompt text => exact attempt_submitPrompt d text
  | explainError => exact attempt_explainError d
  | _ => cases asking

theorem apply_inFlight (d : Desk) {c : Command} (other : asks c = false) :
    (d.apply translator c).1.session.inFlight = d.session.inFlight ∧
      ∀ r, (d.apply translator c).2 ≠ .request r := by
  have clamped : d.clampCursor.session = d.session := rfl
  rw [← clamped]
  unfold apply
  generalize d.clampCursor = d
  cases c with
  | submitPrompt text => cases other
  | explainError => cases other
  | undo =>
    dsimp only
    obtain ⟨loaded, outcome⟩ := d.afterLoad_inFlight (d.session.undo translator)
    exact ⟨loaded.trans (undo_inFlight d.session), outcome⟩
  | redo =>
    dsimp only
    obtain ⟨loaded, outcome⟩ := d.afterLoad_inFlight (d.session.redo translator)
    exact ⟨loaded.trans (redo_inFlight d.session), outcome⟩
  | increase => exact d.adjust_inFlight .up
  | decrease => exact d.adjust_inFlight .down
  | resetParam => exact d.reset_inFlight
  | _ => exact ⟨rfl, by rintro r ⟨⟩⟩

end Control.Desk

namespace Workspace
open Control.Desk Session
variable {translator : Translator}

/-- The kinds of the requests that wait, are at the service, or are answered but not taken in. -/
def outstanding (w : Workspace) : List RequestKind := w.worker.elim [] Worker.kinds

def Accounted (w : Workspace) : Prop := w.outstanding = w.session.inFlight.toList

theorem accounted_start (setting : Setting) (document : String) (settings : Settings.Editor) :
    (start translator setting document settings).Accounted := by
  have none : (Session.start translator document settings).inFlight = none := by
    rw [Session.start, refresh_inFlight]
  rw [Accounted, start_session, none, outstanding, start]
  dsimp only
  split <;> rfl

theorem outstanding_save (w : Workspace) : w.save.outstanding = w.outstanding := by
  obtain ⟨files, alert, saved⟩ := save_eq w
  rw [saved]
  rfl

theorem save_inFlight (w : Workspace) : w.save.session.inFlight = w.session.inFlight := by
  obtain ⟨files, alert, saved⟩ := save_eq w
  rw [saved]
  rfl

/-- What comes of a command that asks the service something: it is refused, sent or given up. -/
inductive Asked (w : Workspace) : Workspace → Prop where
  | refused (cursor : Cursor) (reason : String) :
      Asked w { w with desk := ⟨w.session.report reason, cursor⟩ }
  | sent (cursor : Cursor) (alert : Option String) (r : Request) (idle : w.session.inFlight = none)
      (worker : Worker) (held : w.worker = some worker) :
      Asked w
        { w with
          desk := ⟨{ w.session with inFlight := some r.kind, alert }, cursor⟩
          worker := some (worker.submit r) }
  | unsent (cursor : Cursor) (alert : Option String) (idle : w.session.inFlight = none) :
      Asked w { w with desk := ⟨{ w.session with inFlight := none, alert }, cursor⟩ }

theorem asked_command (w : Workspace) {c : Command} (asking : asks c) :
    Asked w (w.command translator c).1 := by
  have attempt : Attempt w.desk.session (w.desk.apply translator c) := attempt_asking w.desk asking
  unfold command
  generalize w.desk.apply translator c = applied at attempt
  cases attempt with
  | refused cursor reason => exact .refused cursor reason
  | sent cursor alert r idle =>
    dsimp only [submit]
    split
    · rename_i worker held
      exact .sent cursor alert r idle worker held
    · exact .unsent cursor (some _) idle

theorem accounted_asking {w w' : Workspace} (accounted : w.Accounted) (asked : Asked w w') :
    w'.Accounted := by
  have none : w.session.inFlight = none → w.outstanding = [] := by
    intro idle
    rw [accounted, idle]
    rfl
  cases asked with
  | refused cursor reason => exact accounted
  | sent cursor alert r idle worker held =>
    have empty : worker.kinds = [] := by
      have before := none idle
      rw [outstanding, held] at before
      exact before
    simp [Accounted, outstanding, session, empty]
  | unsent cursor alert idle => exact none idle

theorem untouched_asking {w w' : Workspace} (asked : Asked w w') :
    Untouched w.session w'.session := by
  cases asked <;> exact ⟨rfl, rfl, rfl, rfl, rfl, rfl⟩

theorem untouched_failure (w : Workspace) (failure : Failure) :
    Untouched w.session (w.finish translator (.generated (.error failure))).session :=
  ⟨rfl, rfl, rfl, rfl, rfl, rfl⟩

theorem outstanding_asking {w w' : Workspace} (asked : Asked w w') :
    w.outstanding <+: w'.outstanding := by
  cases asked with
  | refused cursor reason => exact List.prefix_rfl
  | sent cursor alert r idle worker held => simp [outstanding, held]
  | unsent cursor alert idle => exact List.prefix_rfl

theorem command_other (w : Workspace) {c : Command} (other : asks c = false) :
    (w.command translator c).1.outstanding = w.outstanding ∧
      (w.command translator c).1.session.inFlight = w.session.inFlight := by
  have inFlight := @apply_inFlight translator w.desk c other
  unfold command
  generalize w.desk.apply translator c = applied at inFlight
  obtain ⟨same, none⟩ := inFlight
  dsimp only
  split
  · exact ⟨rfl, same⟩
  · exact ⟨rfl, same⟩
  · rw [outstanding_save, save_inFlight]
    exact ⟨rfl, same⟩
  · rename_i r request
    exact absurd request (none r)
  · exact ⟨rfl, same⟩
  · exact ⟨rfl, same⟩

theorem checkFile_inFlight (w : Workspace) (now : Nat) :
    (w.checkFile translator now).1.session.inFlight = w.session.inFlight := by
  obtain ⟨session, checked, same⟩ := @checkFile_checked translator w now
  have inFlight : session.inFlight = w.session.inFlight := by
    cases checked with
    | waits => rfl
    | read => exact edit_inFlight _ _ _
    | unread => rfl
  rw [same]
  exact inFlight

theorem finish_idle (w : Workspace) (r : Response) :
    (w.finish translator r).session.inFlight = none := by
  have idle := @finish_inFlight translator w.session r
  unfold finish
  dsimp only
  split
  · exact (save_inFlight _).trans idle
  · exact idle

theorem Accounted.receive {w : Workspace} (accounted : w.Accounted) :
    (w.receive translator).Accounted := by
  unfold Workspace.receive
  split
  · rename_i waiting current r done held
    have kinds : Worker.kinds ⟨waiting, current, r :: done⟩ = w.session.inFlight.toList := by
      rw [← accounted, outstanding, held]
      rfl
    have none : Worker.kinds ⟨waiting, current, done⟩ = [] := by
      have length := congrArg List.length kinds
      have bound := w.session.inFlight.length_toList_le
      apply List.eq_nil_of_length_eq_zero
      simp only [Worker.kinds, List.map_cons, List.cons_append, List.length_cons] at length ⊢
      omega
    rw [Accounted, finish_idle, outstanding, finish_worker]
    exact none
  · exact accounted

theorem outstanding_work (w : Workspace) {f : Worker → Worker}
    (same : ∀ worker, (f worker).kinds = worker.kinds) :
    ({ w with worker := w.worker.map f } : Workspace).outstanding = w.outstanding := by
  unfold outstanding
  cases w.worker with
  | none => rfl
  | some worker => exact same worker

theorem prefix_of_same {l l' : List RequestKind} (same : l' = l) : l <+: l' :=
  ⟨[], (List.append_nil l).trans same.symm⟩

/-- Until its response is taken in, a request stays. -/
theorem outstanding_step (w : Workspace) {e : Event} (other : e ≠ .receive) :
    w.outstanding <+: (w.step translator e).outstanding := by
  cases e with
  | receive => exact absurd rfl other
  | command c =>
    by_cases asking : asks c
    · exact outstanding_asking (asked_command w asking)
    · exact prefix_of_same (command_other w (Bool.not_eq_true _ ▸ asking)).1
  | checkFile now =>
    have same := @checkFile_worker translator w now
    exact prefix_of_same (congrArg (Option.elim · [] Worker.kinds) same)
  | begin => exact prefix_of_same (outstanding_work w Worker.kinds_begin)
  | reply r => exact prefix_of_same (outstanding_work w fun worker => worker.kinds_reply r)
  | write text =>
    simp only [step, overwrite]
    split <;> exact List.prefix_rfl
  | tick | notify | takeProgram | report | type => exact List.prefix_rfl

theorem Accounted.step {w : Workspace} (accounted : w.Accounted) (e : Event) :
    (w.step translator e).Accounted := by
  cases e with
  | receive => exact accounted.receive
  | command c =>
    by_cases asking : asks c
    · exact accounted_asking accounted (asked_command w asking)
    · have other : asks c = false := Bool.not_eq_true _ ▸ asking
      obtain ⟨outstanding, inFlight⟩ := @command_other translator w c other
      rw [Workspace.step, Accounted, outstanding, inFlight]
      exact accounted
  | checkFile now =>
    rw [Workspace.step, Accounted, outstanding, checkFile_worker, checkFile_inFlight]
    exact accounted
  | tick now =>
    have same := tick_inFlight w.session now
    exact Eq.trans accounted (congrArg Option.toList same.symm)
  | begin =>
    rw [Workspace.step, Accounted, outstanding_work w Worker.kinds_begin]
    exact accounted
  | reply r =>
    rw [Workspace.step, Accounted, outstanding_work w fun worker => worker.kinds_reply r]
    exact accounted
  | write text =>
    simp only [Workspace.step, overwrite]
    split <;> exact accounted
  | notify | takeProgram | report | type => exact accounted

theorem Accounted.run (translator : Translator) {w : Workspace} (accounted : w.Accounted)
    (es : List Event) : (w.run translator es).Accounted :=
  run_keeps (fun _ e held => held.step e) accounted es

theorem Accounted.served {w : Workspace} (accounted : w.Accounted) (reply : Reply) :
    ∀ worker ∈ (w.serve reply).worker, worker.fetch.2.kinds = [] := by
  intro worker held
  obtain ⟨before, held, same⟩ := Option.map_eq_some_iff.mp held
  have one : before.kinds.length ≤ 1 := by
    have kinds : before.kinds = w.session.inFlight.toList := by
      rw [← accounted, outstanding, held]
      rfl
    rw [kinds]
    exact w.session.inFlight.length_toList_le
  obtain ⟨waiting, current, done⟩ := before
  subst same
  -- One request is either at the service, or waits and is taken up first, or is done.
  cases current with
  | some r =>
    have none : waiting = [] := by
      apply List.eq_nil_of_length_eq_zero
      simp [Worker.kinds] at one
      omega
    subst none
    rfl
  | none =>
    cases waiting with
    | nil => rfl
    | cons r waiting =>
      have none : waiting = [] := by
        apply List.eq_nil_of_length_eq_zero
        simp [Worker.kinds] at one
        omega
      subst none
      rfl

/-- What has happened to the requests in every state of every run: what is outstanding is what the
    session waits for; it stays until its response is taken in, which happens with the first poll
    after the reply. Requests that are refused or cannot be sent change nothing of the session's
    work, nor do replies without a document. -/
theorem requests_accounted (translator : Translator) (setting : Setting) (document : String)
    (settings : Settings.Editor) (es : List Event) :
    let w := (start translator setting document settings).run translator es
    w.outstanding = w.session.inFlight.toList ∧
      (∀ e, e = .receive ∨ w.outstanding <+: (w.step translator e).outstanding) ∧
      (∀ reply now, ((w.serve reply).poll translator now).1.session.isBusy = false) ∧
      (∀ text, Untouched w.session (w.command translator (.submitPrompt text)).1.session) ∧
      Untouched w.session (w.command translator .explainError).1.session ∧
      ∀ failure,
        Untouched w.session (w.finish translator (.generated (.error failure))).session := by
  intro w
  have accounted : w.Accounted :=
    (accounted_start setting document settings).run translator es
  refine ⟨accounted, ?_, ?_, fun text => untouched_asking (asked_command w rfl),
    untouched_asking (asked_command w rfl), untouched_failure w⟩
  · intro e
    by_cases receives : e = .receive
    · exact .inl receives
    · exact .inr (outstanding_step w receives)
  · intro reply now
    have ended : ((w.serve reply).poll translator now).1.Accounted := by
      rw [poll_eq, serve_eq translator]
      exact (accounted.run translator _).run translator _
    have none : ((w.serve reply).poll translator now).1.outstanding = [] := by
      rw [outstanding, poll_worker]
      cases held : (w.serve reply).worker with
      | none => rfl
      | some worker => exact accounted.served reply worker held
    rw [Accounted, none] at ended
    cases inFlight : ((w.serve reply).poll translator now).1.session.inFlight with
    | none => rw [Session.isBusy, inFlight, Option.isSome_none]
    | some kind =>
      rw [inFlight] at ended
      cases ended

end Workspace
end ShaderBench
