import ShaderBench.Gpu.Compile
import ShaderBench.CommandLine.Arguments
import ShaderBench.Param.Extract
import ShaderBench.Param.Adjust
import ShaderBench.Settings
/-
A run of the program up to its preview: the settings and the document are read, and a form of the
document is printed if one is asked for.
-/
namespace ShaderBench.CommandLine
open Files

inductive RunFailure where
  | settingsUnreadable (path : Path) (e : FileError)
  | settingsInvalid (path : Path)
  | documentNotMade (path : Path) (e : FileError)
  | documentUnreadable (path : Path) (e : FileError)
  | notCompiled (e : Gpu.CompileError)
  | noWindow
  | noTerminal
  deriving DecidableEq, Repr

namespace RunFailure

def message : RunFailure → String
  | settingsUnreadable path _ => s!"Failed to read config file {path}"
  | settingsInvalid path => s!"In {path}"
  | documentNotMade path _ => s!"Failed to create {path}"
  | documentUnreadable path _ => s!"Error reading shader file '{path}'"
  | notCompiled _ => "Failed to compile shader"
  | noWindow => "Failed to create event loop"
  | noTerminal => "Failed to query terminal size"

def cause? : RunFailure → Option String
  | settingsUnreadable _ e | documentNotMade _ e | documentUnreadable _ e => some e.message
  | settingsInvalid _ => some "Invalid configuration"
  | notCompiled e => some e.message
  | noWindow | noTerminal => none

def movedIn (text : String) : String :=
  "    " ++ String.ofList (text.toList.flatMap fun c => if c = '\n' then "\n    ".toList else [c])

def report (f : RunFailure) : String :=
  let cause := f.cause?.elim "" fun cause => s!"\nCaused by:\n{movedIn cause}\n"
  s!"Error: {f.message}\n{cause}"

end RunFailure

def programName : String := "shaderlab"

def versionText : String := s!"{programName} 0.1.0\n"

def helpText : String := Shader.unlines [
  s!"Usage: {programName} [OPTIONS] <SHADER_FILE>",
  "",
  "Arguments:",
  "  <SHADER_FILE>  Path to the shader document; created with a starter program if missing",
  "",
  "Options:",
  "  -w, --window             Render in a window instead of the terminal",
  "  -p, --perf               Show frames per second",
  "      --max-fps <FPS>      Maximum terminal frame rate (frames per second)",
  "  -c, --config <FILE>      Configuration file",
  "      --seed-initializers  Seed parameter defaults from literal initializers",
  "      --emit <FORM>        Print an intermediate form (assembled, params, wgsl) and exit",
  "  -h, --help               Print help",
  "  -V, --version            Print version"]

abbrev Environment := String → Option String

def userFolder? (environment : Environment) : Option Path :=
  match (environment "XDG_CONFIG_HOME").filter fun p => p.toList.head? = some '/' with
  | some folder => some folder
  | none =>
    ((environment "HOME").filter fun p => !p.isEmpty).map fun home => Path.child home ".config"

def localSettings : Path := "shaderlab.toml"

def userSettings? (environment : Environment) : Option Path :=
  (userFolder? environment).map fun folder =>
    Path.child (Path.child folder programName) "config.toml"

/-- Where settings are, if they are anywhere: at the given path, in the working folder, or in the
    folder of the user. Only a given path need not exist. -/
def settingsPath? (files : Folder) (environment : Environment) (given : Option Path) :
    Option Path :=
  match given with
  | some path => some path
  | none =>
    if files.exists? localSettings then some localSettings
    else (userSettings? environment).filter files.exists?

def readSettings (files : Folder) (path : Path) : Except RunFailure Settings :=
  match files.read path with
  | .error e => .error (.settingsUnreadable path e)
  | .ok text =>
    match Settings.read? text.toList with
    | some settings => .ok settings
    | none => .error (.settingsInvalid path)

def settings (files : Folder) (environment : Environment) (a : Arguments) :
    Except RunFailure Settings :=
  match settingsPath? files environment a.settings with
  | some path => (readSettings files path).map a.override
  | none => .ok (a.override .standard)

def makeDocument (files : Folder) (path : Path) : Except RunFailure Folder :=
  if files.exists? path then .ok files
  else (files.write path Shader.sampleDocument).mapError (.documentNotMade path)

def readDocument (files : Folder) (path : Path) : Except RunFailure String :=
  (files.read path).mapError (.documentUnreadable path)

def formText (translator : Gpu.Translator) (seeding : Bool) (document : String) :
    Form → Except RunFailure String
  | .assembled => .ok (String.ofList (Shader.assemble document.toList))
  | .params =>
    let params := Param.extract seeding document.toList
    .ok (String.ofList (Json.indented 0 (Param.listJson params)))
  | .wgsl =>
    match Gpu.compile translator (Shader.assemble document.toList) with
    | .ok program => .ok program.wgsl
    | .error e => .error (.notCompiled e)

structure Opening where
  path : Path
  document : String
  settings : Settings
  inWindow : Bool
  showRate : Bool
  deriving DecidableEq, Repr

inductive RunEnd where
  | printed (text : String)
  | rejected (r : Rejection)
  | failed (f : RunFailure)
  | opened (o : Opening)
  deriving DecidableEq, Repr

structure Run where
  files : Folder
  ending : RunEnd
  deriving DecidableEq, Repr

namespace Run

def withDocument (translator : Gpu.Translator) (a : Arguments) (settings : Settings)
    (document : String) : RunEnd :=
  match a.form with
  | none => .opened ⟨a.file, document, settings, a.inWindow, a.showRate⟩
  | some form =>
    match formText translator settings.editor.seeding document form with
    | .ok text => .printed (text ++ "\n")
    | .error f => .failed f

/-- The settings are there: now the document is read, and made before if it is missing. -/
def withSettings (translator : Gpu.Translator) (files : Folder) (a : Arguments)
    (settings : Settings) : Run :=
  match makeDocument files a.file with
  | .error f => ⟨files, .failed f⟩
  | .ok files =>
    match readDocument files a.file with
    | .error f => ⟨files, .failed f⟩
    | .ok document => ⟨files, withDocument translator a settings document⟩

def withArguments (translator : Gpu.Translator) (files : Folder) (environment : Environment)
    (a : Arguments) : Run :=
  match CommandLine.settings files environment a with
  | .ok settings => withSettings translator files a settings
  | .error f => ⟨files, .failed f⟩

def start (translator : Gpu.Translator) (files : Folder) (environment : Environment)
    (arguments : List String) : Run :=
  match Arguments.read arguments with
  | .ok a => withArguments translator files environment a
  | .error .help => ⟨files, .printed helpText⟩
  | .error .version => ⟨files, .printed versionText⟩
  | .error r => ⟨files, .rejected r⟩

end Run

def Run.withoutScreen (r : Run) : Run :=
  match r.ending with
  | .opened o => { r with ending := .failed (if o.inWindow then .noWindow else .noTerminal) }
  | _ => r

def RunEnd.code : RunEnd → Nat
  | .printed _ | .opened _ => 0
  | .failed _ => 1
  | .rejected _ => 2

def RunEnd.output : RunEnd → String
  | .printed text => text
  | _ => ""

def RunEnd.report? : RunEnd → Option String
  | .failed f => some f.report
  | _ => none

end ShaderBench.CommandLine
