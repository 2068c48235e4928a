import ShaderBench.Toml.Document
/-
The settings of the program, with the values that hold where nothing else is said, and how they are
read from a TOML document: keys without a meaning here are passed over, and what is not given keeps
its standard value.
-/
namespace ShaderBench.Settings

structure Display where
  maxRate : Option Nat
  windowWidth : Nat
  windowHeight : Nat
  deriving DecidableEq, Repr

structure Editor where
  historyDepth : Nat
  /-- Milliseconds without an edit after which edits are committed. -/
  commitDelay : Nat
  seeding : Bool
  writeBack : Bool
  deriving DecidableEq, Repr

structure Assistant where
  endpoint : String
  model : String
  keyName : String
  timeoutSeconds : Nat
  contextLength : Nat
  deriving DecidableEq, Repr

def Display.standard : Display := ⟨none, 1280, 800⟩

def Editor.standard : Editor := ⟨100, 750, false, true⟩

def Assistant.standard : Assistant :=
  ⟨"https://generativelanguage.googleapis.com/v1beta", "gemini-2.5-flash", "GEMINI_API_KEY", 60,
    1000⟩

end Settings

structure Settings where
  display : Settings.Display
  editor : Settings.Editor
  assistant : Settings.Assistant
  deriving DecidableEq, Repr

def Settings.standard : Settings := ⟨.standard, .standard, .standard⟩

namespace Settings
open Toml

abbrev Fields := Nat → String → Option Value

/-- A group is given by a table, or by an array of its values in their order. A date has no field
    of a known name. -/
def fields? : Value → Option Fields
  | .inline entries | .table _ entries => some fun _ name => Entries.get? entries name.toList
  | .array items => some fun position _ => items[position]?
  | .tables items => some fun position _ => (items[position]?).map (.table .declared)
  | .moment _ => some fun _ _ => none
  | .string _ | .integer _ | .float _ | .boolean _ => none

def natural (limit : Nat) : Value → Option Nat
  | .integer n => if 0 ≤ n ∧ n ≤ limit then some n.toNat else none
  | _ => none

def boolean : Value → Option Bool
  | .boolean b => some b
  | _ => none

def text : Value → Option String
  | .string s => some (String.ofList s)
  | _ => none

def field {α : Type} (fields : Fields) (position : Nat) (name : String)
    (read : Value → Option α) (standard : α) : Option α :=
  match fields position name with
  | some v => read v
  | none => some standard

def word32 : Nat := UInt32.size - 1
def word64 : Nat := UInt64.size - 1

def readDisplay (fields : Fields) : Option Display := do
  let standard := Display.standard
  some
    { maxRate :=
        ← field fields 0 "max_fps" (fun v => (natural word32 v).map some) standard.maxRate
      windowWidth := ← field fields 1 "window_width" (natural word32) standard.windowWidth
      windowHeight := ← field fields 2 "window_height" (natural word32) standard.windowHeight }

def readEditor (fields : Fields) : Option Editor := do
  let standard := Editor.standard
  some
    { historyDepth := ← field fields 0 "history_depth" (natural word64) standard.historyDepth
      commitDelay := ← field fields 1 "commit_debounce_ms" (natural word64) standard.commitDelay
      seeding := ← field fields 2 "seed_from_initializer" boolean standard.seeding
      writeBack := ← field fields 3 "write_back" boolean standard.writeBack }

def readAssistant (fields : Fields) : Option Assistant := do
  let standard := Assistant.standard
  some
    { endpoint := ← field fields 0 "endpoint" text standard.endpoint
      model := ← field fields 1 "model" text standard.model
      keyName := ← field fields 2 "api_key_env" text standard.keyName
      timeoutSeconds := ← field fields 3 "timeout_secs" (natural word64) standard.timeoutSeconds
      contextLength := ← field fields 4 "context_chars" (natural word64) standard.contextLength }

def group {α : Type} (read : Fields → Option α) (v : Value) : Option α := fields? v >>= read

def read? (content : List Char) : Option Settings := do
  let entries ← Toml.document content
  let fields : Fields := fun _ name => entries.get? name.toList
  some
    { display := ← field fields 0 "display" (group readDisplay) .standard
      editor := ← field fields 1 "editor" (group readEditor) .standard
      assistant := ← field fields 2 "generation" (group readAssistant) .standard }

end Settings
end ShaderBench
