import ShaderBench.Files.Folder
import ShaderBench.Number.Decimal
import ShaderBench.Settings
/-
The arguments of the command line: switches, options with a value, and the path of one document.
-/
namespace ShaderBench.CommandLine
open Files

inductive Form where
  | assembled
  | params
  | wgsl
  deriving DecidableEq, Repr

structure Arguments where
  file : Path
  inWindow : Bool
  showRate : Bool
  maxRate : Option Nat
  settings : Option Path
  seeding : Bool
  form : Option Form
  deriving DecidableEq, Repr

inductive Rejection where
  | unknown
  | badValue
  | badNumber
  | repeated
  | surplusValue
  | fileMissing
  | help
  | version
  deriving DecidableEq, Repr

inductive Switch where
  | window
  | rate
  | seeding
  | help
  | version
  deriving DecidableEq, Repr

inductive Slot where
  | maxRate
  | settings
  | form
  | file
  deriving DecidableEq, Repr

inductive Named where
  | switch (s : Switch)
  | slot (s : Slot)
  deriving DecidableEq, Repr

def long? (name : String) : Option Named :=
  match name with
  | "window" => some (.switch .window)
  | "perf" => some (.switch .rate)
  | "max-fps" => some (.slot .maxRate)
  | "config" => some (.slot .settings)
  | "seed-initializers" => some (.switch .seeding)
  | "emit" => some (.slot .form)
  | "help" => some (.switch .help)
  | "version" => some (.switch .version)
  | _ => none

def short? (c : Char) : Option Named :=
  match c with
  | 'w' => some (.switch .window)
  | 'p' => some (.switch .rate)
  | 'c' => some (.slot .settings)
  | 'h' => some (.switch .help)
  | 'V' => some (.switch .version)
  | _ => none

def Form.ofName? (name : String) : Option Form :=
  match name with
  | "assembled" => some .assembled
  | "params" => some .params
  | "wgsl" => some .wgsl
  | _ => none

def digitsNumber? (digits : List Char) : Option Nat :=
  if digits.isEmpty || !digits.all Char.isDigit then none else some (Single.digitValue digits)

def rateLimit : Nat := UInt32.size

/-- A rate may have a sign, but only zero a minus. -/
def rate? (text : List Char) : Option Nat := do
  let rate ← match text with
    | '+' :: digits => digitsNumber? digits
    | '-' :: digits => (digitsNumber? digits).filter (· = 0)
    | digits => digitsNumber? digits
  if rate < rateLimit then some rate else none

/-- What has been read. The last value may still have to be looked at, or may yet come. -/
structure Draft where
  file : Option Path
  inWindow : Bool
  showRate : Bool
  maxRate : Option Nat
  settings : Option Path
  seeding : Bool
  form : Option Form
  pending : Option (Slot × Option String)
  onlyFile : Bool
  deriving DecidableEq, Repr

namespace Draft

def empty : Draft := ⟨none, false, false, none, none, false, none, none, false⟩

def has (d : Draft) : Slot → Bool
  | .maxRate => d.maxRate.isSome
  | .settings => d.settings.isSome
  | .form => d.form.isSome
  | .file => d.file.isSome

def put (d : Draft) (slot : Slot) (value : String) : Except Rejection Draft :=
  match slot with
  | .maxRate =>
    match rate? value.toList with
    | some rate => .ok { d with maxRate := some rate }
    | none => .error .badNumber
  | .settings => if value.isEmpty then .error .badValue else .ok { d with settings := some value }
  | .form =>
    match Form.ofName? value with
    | some form => .ok { d with form := some form }
    | none => .error .badValue
  | .file => if value.isEmpty then .error .badValue else .ok { d with file := some value }

def store (d : Draft) (slot : Slot) (value : String) : Except Rejection Draft :=
  if d.has slot then .error .repeated else d.put slot value

def settle (d : Draft) : Except Rejection Draft :=
  match d.pending with
  | none => .ok d
  | some (_, none) => .error .badValue
  | some (slot, some value) => { d with pending := none }.store slot value

def await (d : Draft) (slot : Slot) (value : Option String) : Except Rejection Draft :=
  d.settle.map fun d => { d with pending := some (slot, value) }

def turn (d : Draft) (s : Switch) : Except Rejection Draft := do
  let d ← d.settle
  match s with
  | .window => if d.inWindow then .error .repeated else .ok { d with inWindow := true }
  | .rate => if d.showRate then .error .repeated else .ok { d with showRate := true }
  | .seeding => if d.seeding then .error .repeated else .ok { d with seeding := true }
  | .help => .error .help
  | .version => .error .version

def attach (d : Draft) (slot : Slot) (value : List Char) : Except Rejection Draft :=
  d.settle >>= fun d => d.store slot (String.ofList value)

def takeLong (d : Draft) (text : List Char) : Except Rejection Draft :=
  match long? (String.ofList (text.takeWhile (· ≠ '='))), text.dropWhile (· ≠ '=') with
  | none, _ => .error .unknown
  | some (.switch s), [] => d.turn s
  | some (.switch _), _ => .error .surplusValue
  | some (.slot slot), [] => d.await slot none
  | some (.slot slot), _ :: value => d.attach slot value

/-- Takes short options in one argument; what follows one with a value is its value. -/
def takeShort (d : Draft) : List Char → Except Rejection Draft
  | [] => .ok d
  | c :: rest =>
    match short? c, rest with
    | none, _ => .error .unknown
    | some (.switch s), _ => d.turn s >>= fun d => d.takeShort rest
    | some (.slot slot), [] => d.await slot none
    | some (.slot slot), '=' :: value => d.attach slot value
    | some (.slot slot), value => d.attach slot value

def takeFile (d : Draft) (value : String) : Except Rejection Draft :=
  if d.has .file || d.pending.any fun p => p.1 = .file then .error .unknown
  else d.await .file (some value)

def takePlain (d : Draft) (value : String) : Except Rejection Draft :=
  match d.pending with
  | some (slot, none) => .ok { d with pending := some (slot, some value) }
  | _ => d.takeFile value

def take (d : Draft) (argument : String) : Except Rejection Draft :=
  if d.onlyFile then d.takeFile argument
  else
    match argument.toList with
    | ['-', '-'] => .ok { d with onlyFile := true }
    | '-' :: '-' :: text => d.takeLong text
    | '-' :: c :: rest => d.takeShort (c :: rest)
    | _ => d.takePlain argument

def finish (d : Draft) : Except Rejection Arguments := do
  let d ← d.settle
  match d.file with
  | some file =>
    .ok ⟨file, d.inWindow, d.showRate, d.maxRate, d.settings, d.seeding, d.form⟩
  | none => .error .fileMissing

end Draft

def Arguments.read (arguments : List String) : Except Rejection Arguments :=
  arguments.foldlM Draft.take .empty >>= Draft.finish

def Arguments.override (a : Arguments) (s : Settings) : Settings :=
  { s with
    display := { s.display with maxRate := a.maxRate <|> s.display.maxRate }
    editor := { s.editor with seeding := a.seeding || s.editor.seeding } }

end ShaderBench.CommandLine
