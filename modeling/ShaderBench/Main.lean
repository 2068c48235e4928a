import ShaderBench.CommandLine.Run
/-
The program. The disk is looked at where the run may need it, the run is worked out, and what it
made and printed is written. No translator and no screen is at hand here, so a run ends where it
would need one.
-/
namespace ShaderBench.Disk
open Files CommandLine

def path (place : Place) : Path := String.ofList ('/' :: Path.join place)

def note (known : Folder) (place : Place) : IO Folder := do
  try
    let bytes ← IO.FS.readBinFile (path place)
    pure (known.put place (.ofBytes bytes.toList))
  catch
    | .inappropriateType .. => pure { known with folders := known.folders ++ [place] }
    | _ => pure known

def explore (known : Folder) (here : Place) : List (List Char) → IO Folder
  | [] => pure known
  | part :: rest => do
    let next :=
      if Path.saysNothing part then here
      else if part = "..".toList then here.dropLast
      else here ++ [part]
    let known ← note known next
    if known.isFolder next then explore known next rest else pure known

def paths (environment : Environment) (arguments : List String) : List Path :=
  match Arguments.read arguments with
  | .ok a => [a.settings, localSettings, userSettings? environment, a.file].filterMap id
  | .error _ => []

/-- The part of the disk that a run may look at. -/
def survey (environment : Environment) (arguments : List String) : IO Folder := do
  let workplace := (Path.split (toString (← IO.currentDir)).toList).tail
  let known ← explore { Folder.empty "" with workplace } [] workplace
  (paths environment arguments).foldlM (fun known p =>
    match Path.split p.toList with
    | [] :: parts => explore known [] parts
    | parts => explore known workplace parts) known

def save (before after : Folder) : IO Unit :=
  after.files.forM fun entry =>
    match entry.2 with
    | .text s => unless before.content? entry.1 = some (.text s) do IO.FS.writeFile (path entry.1) s
    | .binary _ => pure ()

def environment : IO Environment := do
  let settings ← IO.getEnv "XDG_CONFIG_HOME"
  let home ← IO.getEnv "HOME"
  pure fun name => ([("XDG_CONFIG_HOME", settings), ("HOME", home)].lookup name).join

def noTranslator : Gpu.Translator := fun _ => .unwritable "no translator"

end ShaderBench.Disk

open ShaderBench

def main (arguments : List String) : IO UInt32 := do
  let environment ← Disk.environment
  let files ← Disk.survey environment arguments
  let run := (CommandLine.Run.start Disk.noTranslator files environment arguments).withoutScreen
  Disk.save files run.files
  IO.print run.ending.output
  match run.ending with
  | .rejected _ => IO.eprint CommandLine.helpText
  | ending => IO.eprint (ending.report?.getD "")
  pure run.ending.code.toUInt32
