import ShaderBench.Workspace.Basic
/-
Runs of a workspace: the owner of the screen gives commands and polls, the worker is at work, and
other programs write the file, each at any time. A poll is several events, for the others do not
wait until it is over.
-/
namespace ShaderBench.Workspace
open Control Editing Files Assistant Gpu

def receive (translator : Translator) (w : Workspace) : Workspace :=
  match w.worker with
  | some ⟨waiting, current, r :: done⟩ =>
    finish translator { w with worker := some ⟨waiting, current, done⟩ } r
  | _ => w

inductive Event where
  | command (c : Command)
  | checkFile (now : Nat)
  | tick (now : Nat)
  | receive
  | begin
  | reply (r : Reply)
  | write (text : String)
  | notify (n : Notice)
  | takeProgram
  | report (alert : String)
  | type (prompt : PromptLine)

def overwrite (w : Workspace) (text : String) : Workspace :=
  match w.files.write w.path text with
  | .ok files => { w with files }
  | .error _ => w

def step (translator : Translator) (w : Workspace) : Event → Workspace
  | .command c => (w.command translator c).1
  | .checkFile now => (w.checkFile translator now).1
  | .tick now => w.tick now
  | .receive => w.receive translator
  | .begin => { w with worker := w.worker.map Worker.begin }
  | .reply r => { w with worker := w.worker.map fun worker => worker.reply r }
  | .write text => w.overwrite text
  | .notify n => w.notify n
  | .takeProgram => w.setSession w.session.takeProgram.2
  | .report alert => w.setSession (w.session.report alert)
  | .type prompt => { w with prompt }

def run (translator : Translator) (w : Workspace) (es : List Event) : Workspace :=
  es.foldl (step translator) w

variable {translator : Translator}

theorem run_keeps {P : Workspace → Prop} (keeps : ∀ w e, P w → P (w.step translator e))
    {w : Workspace} (first : P w) (es : List Event) : P (w.run translator es) := by
  induction es generalizing w with
  | nil => exact first
  | cons e es ih => exact ih (keeps w e first)

theorem start_session (setting : Setting) (document : String) (settings : Settings.Editor) :
    (start translator setting document settings).session =
      Session.start translator document settings := by
  have desk : ∀ (s : Session) prompt path files watcher worker writeBack,
      (Workspace.mk ⟨s, .home⟩ prompt path files watcher worker writeBack).session = s := by
    intros
    rfl
  rw [start, desk]

theorem save_eq (w : Workspace) :
    ∃ files alert, w.save = { w.setSession { w.session with alert } with files } := by
  unfold save
  split
  · split
    · rename_i files _
      exact ⟨files, w.session.alert, rfl⟩
    · exact ⟨w.files, some _, rfl⟩
  · exact ⟨w.files, w.session.alert, rfl⟩

theorem finish_worker (w : Workspace) (r : Response) :
    (w.finish translator r).worker = w.worker := by
  unfold finish
  dsimp only
  split
  · obtain ⟨files, alert, saved⟩ := save_eq (w.setSession (w.session.finish translator r).1)
    rw [saved]
    rfl
  · rfl

def reports (w : Workspace) (now : Nat) : Bool := w.watcher.any fun watcher => (watcher.check now).2

/-- What a check of the file makes of the session: nothing as long as no change is reported, and
    then the text of the file is its document, unless it cannot be read. -/
inductive Checked (translator : Translator) (w : Workspace) (now : Nat) : Session → Prop where
  | waits (quiet : w.reports now = false) : Checked translator w now w.session
  | read (due : w.reports now = true) {text : String} (readable : w.files.read w.path = .ok text) :
      Checked translator w now (w.session.edit translator text now).1
  | unread (due : w.reports now = true) {e : FileError}
      (unreadable : w.files.read w.path = .error e) :
      Checked translator w now (w.session.report s!"File read error: {e.message}")

theorem checkFile_checked (w : Workspace) (now : Nat) :
    ∃ session, Checked translator w now session ∧ (w.checkFile translator now).1 =
      { w.setSession session with
        watcher := w.watcher.map fun watcher => (watcher.check now).1 } := by
  cases held : w.watcher with
  | none =>
    refine ⟨w.session, .waits ?_, ?_⟩
    · rw [reports, held, Option.any_none]
    · simp only [checkFile, held, Option.map_none]
      rw [← held]
      rfl
  | some watcher =>
    cases due : (watcher.check now).2 with
    | false =>
      refine ⟨w.session, .waits ?_, ?_⟩
      · rw [reports, held, Option.any_some, due]
      · simp only [checkFile, held, due]
        rfl
    | true =>
      have reports : w.reports now = true := by rw [reports, held, Option.any_some, due]
      cases file : w.files.read w.path with
      | ok text =>
        refine ⟨_, .read reports file, ?_⟩
        simp only [checkFile, held, due, reload, file]
        rfl
      | error e =>
        refine ⟨_, .unread reports file, ?_⟩
        simp only [checkFile, held, due, reload, file]
        rfl

theorem checkFile_worker (w : Workspace) (now : Nat) :
    (w.checkFile translator now).1.worker = w.worker := by
  obtain ⟨session, _, checked⟩ := @checkFile_checked translator w now
  rw [checked]
  rfl

theorem save_aside (w : Workspace) (worker : Option Worker) :
    ({ w with worker } : Workspace).save = { w.save with worker } := by
  unfold save
  dsimp only [session, setSession]
  split
  · split <;> rfl
  · rfl

theorem finish_aside (w : Workspace) (worker : Option Worker) (r : Response) :
    ({ w with worker } : Workspace).finish translator r =
      { w.finish translator r with worker } := by
  unfold finish
  dsimp only [session, setSession]
  split
  · exact save_aside { w with desk := { w.desk with session := _ } } worker
  · rfl

theorem receive_all (done : List Response) : ∀ {w : Workspace} {waiting current},
    w.worker = some ⟨waiting, current, done⟩ →
      w.run translator (List.replicate done.length .receive) =
        done.foldl (finish translator) { w with worker := some ⟨waiting, current, []⟩ } := by
  induction done with
  | nil =>
    intro w waiting current worker
    rw [← worker]
    rfl
  | cons r done ih =>
    intro w waiting current worker
    have taken : w.receive translator =
        finish translator { w with worker := some ⟨waiting, current, done⟩ } r := by
      simp only [receive, worker]
    have left : (w.receive translator).worker = some ⟨waiting, current, done⟩ := by
      rw [taken, finish_worker]
    refine (ih left).trans ?_
    rw [taken, List.foldl_cons, finish_aside, ← finish_aside w (some ⟨waiting, current, []⟩)]

theorem fetch_eq (w : Workspace) :
    (w.fetch translator).1 =
      w.run translator (List.replicate (w.worker.elim 0 (·.done.length)) .receive) := by
  unfold fetch
  cases held : w.worker with
  | none => rfl
  | some worker => exact (receive_all worker.done held).symm

/-- A poll that nothing comes between. -/
theorem poll_eq (w : Workspace) (now : Nat) :
    (w.poll translator now).1 =
      w.run translator (.checkFile now :: .tick now ::
        List.replicate (w.worker.elim 0 (·.done.length)) .receive) := by
  have same : ((w.checkFile translator now).1.tick now).worker = w.worker :=
    checkFile_worker w now
  rw [← same]
  exact fetch_eq ((w.checkFile translator now).1.tick now)

theorem poll_worker (w : Workspace) (now : Nat) :
    (w.poll translator now).1.worker = w.worker.map fun worker => worker.fetch.2 := by
  have kept : ∀ (done : List Response) (w : Workspace),
      (done.foldl (finish translator) w).worker = w.worker := by
    intro done
    induction done with
    | nil => exact fun w => rfl
    | cons r done ih => exact fun w => (ih (w.finish translator r)).trans (finish_worker w r)
  have same : ((w.checkFile translator now).1.tick now).worker = w.worker :=
    checkFile_worker w now
  rw [← same]
  change (((w.checkFile translator now).1.tick now).fetch translator).1.worker = _
  unfold fetch
  cases held : ((w.checkFile translator now).1.tick now).worker with
  | none => exact held
  | some worker => exact kept _ _

theorem serve_eq (translator : Translator) (w : Workspace) (r : Reply) :
    w.serve r = w.run translator [.begin, .reply r] := by
  cases worker : w.worker <;> simp [serve, run, step, worker]

end ShaderBench.Workspace
