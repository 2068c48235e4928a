import ShaderBench.Control.Desk
import ShaderBench.Files.Folder
/-
The workspace: a desk whose document is that of a file. Changes of the file come in, changes that
are made at the desk go out, and requests go to the text service.
-/
namespace ShaderBench
open Control Editing Files Assistant Gpu

structure Workspace where
  desk : Desk
  prompt : PromptLine
  path : Path
  files : Folder
  watcher : Option Watcher
  worker : Option Worker
  writeBack : Bool

namespace Workspace

structure Setting where
  files : Folder
  path : Path
  watched : Bool
  assisted : Bool

def start (translator : Translator) (setting : Setting) (document : String)
    (settings : Settings.Editor) : Workspace :=
  { desk := ⟨.start translator document settings, .home⟩
    prompt := .closed
    path := setting.path
    files := setting.files
    watcher := if setting.watched then some (.ofPath setting.path) else none
    worker := if setting.assisted then some .idle else none
    writeBack := settings.writeBack }

/-- Opens a workspace. A file whose folder does not exist is not watched. -/
def openAt (translator : Translator) (files : Folder) (path : Path) (document : String)
    (settings : Settings.Editor) : Workspace :=
  start translator ⟨files, path, files.exists? (Path.folder path), true⟩ document settings

def session (w : Workspace) : Session := w.desk.session

def setSession (w : Workspace) (s : Session) : Workspace :=
  { w with desk := { w.desk with session := s } }

def save (w : Workspace) : Workspace :=
  if w.writeBack then
    match w.files.write w.path w.session.document with
    | .ok files => { w with files }
    | .error e => w.setSession (w.session.report s!"Failed to write {w.path}: {e.message}")
  else w

def reload (translator : Translator) (w : Workspace) (now : Nat) : Workspace × Bool :=
  match w.files.read w.path with
  | .ok document =>
    let edited := w.session.edit translator document now
    (w.setSession edited.1, edited.2)
  | .error e => (w.setSession (w.session.report s!"File read error: {e.message}"), false)

def checkFile (translator : Translator) (w : Workspace) (now : Nat) : Workspace × Bool :=
  match w.watcher with
  | none => (w, false)
  | some watcher =>
    let checked := watcher.check now
    let w := { w with watcher := some checked.1 }
    if checked.2 then w.reload translator now else (w, false)

def tick (w : Workspace) (now : Nat) : Workspace := w.setSession (w.session.tick now).1

/-- Takes in one response. A new document is written to the file. -/
def finish (translator : Translator) (w : Workspace) (r : Response) : Workspace :=
  let finished := w.session.finish translator r
  let w := w.setSession finished.1
  if finished.2 then w.save else w

def fetch (translator : Translator) (w : Workspace) : Workspace × Bool :=
  match w.worker with
  | none => (w, false)
  | some worker =>
    let fetched := worker.fetch
    (fetched.1.foldl (finish translator) { w with worker := some fetched.2 }, !fetched.1.isEmpty)

def poll (translator : Translator) (w : Workspace) (now : Nat) : Workspace × Bool :=
  let checked := w.checkFile translator now
  let fetched := (checked.1.tick now).fetch translator
  (fetched.1, checked.2 || fetched.2)

def submit (w : Workspace) (r : Request) : Workspace :=
  match w.worker with
  | some worker => { w with worker := some (worker.submit r) }
  | none => w.setSession (w.session.abandon "AI generation is unavailable (no API key?)")

def serve (w : Workspace) (reply : Reply) : Workspace :=
  { w with worker := w.worker.map fun worker => worker.begin.reply reply }

def command (translator : Translator) (w : Workspace) (c : Command) :
    Workspace × Option HostAction :=
  let applied := w.desk.apply translator c
  let w := { w with desk := applied.1 }
  match applied.2 with
  | .nothing | .paramsChanged => (w, none)
  | .documentChanged => (w.save, none)
  | .request r => (w.submit r, none)
  | .host .openPrompt => ({ w with prompt := .opened }, none)
  | .host action => (w, some action)

def notify (w : Workspace) (n : Notice) : Workspace :=
  { w with watcher := w.watcher.map fun watcher => watcher.notify n }

end Workspace

/- The status of a workspace: the most important thing to say. -/

inductive Status where
  | help
  | prompt (text : String)
  | info (text : String)
  | alert (text : String)
  | error (text : String)
  deriving DecidableEq, Repr

def Status.helpText : String :=
  "tab param  c comp  +/- adjust  0 reset  u/U undo/redo  g ai  e explain  space pause  " ++
    "r restart  q quit"

def Status.text : Status → String
  | .help => helpText
  | .prompt text | .info text | .alert text | .error text => text

def onOneLine (between : String) (text : String) : String :=
  String.ofList (text.toList.flatMap fun c => if c = '\n' then between.toList else [c])

/-- What is typed comes first, then what is awaited, and last what has happened. -/
def Workspace.status (w : Workspace) : Status :=
  let s := w.session
  if w.prompt.isOpen then .prompt ("ai> " ++ String.ofList w.prompt.text)
  else if s.isGenerating then .info "Generating..."
  else if s.isBusy then .info "Asking for an explanation..."
  else
    match s.alert, s.explanation, s.error with
    | some alert, _, _ => .alert alert
    | none, some explanation, _ => .info (onOneLine " " explanation)
    | none, none, some e => .error (onOneLine " | " e.message)
    | none, none, none => .help

end ShaderBench
