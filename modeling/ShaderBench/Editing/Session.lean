import ShaderBench.Assistant.Requests
import ShaderBench.Gpu.Compile
import ShaderBench.Param.Extract
import ShaderBench.Settings
/-
A session: the document under edit with its history, its parameters and its compiled program, and
the requests to the text service about it. Times are nanoseconds.
-/
namespace ShaderBench.Editing
open Assistant Gpu Param

/-- Entries from the oldest to the newest; the position is that of the current one. -/
structure History where
  entries : List String
  index : Nat
  depth : Nat
  deriving DecidableEq, Repr

namespace History

def start (document : String) (depth : Nat) : History := ⟨[document], 0, max depth 1⟩

def current (h : History) : String := h.entries.getD h.index ""

def size (h : History) : Nat := h.entries.length

def canUndo (h : History) : Bool := 0 < h.index

def canRedo (h : History) : Bool := h.index + 1 < h.size

def newest (depth : Nat) (entries : List String) : List String :=
  entries.drop (entries.length - depth)

def enter (h : History) (document : String) : History :=
  let kept := newest h.depth (h.entries.take (h.index + 1) ++ [document])
  ⟨kept, kept.length - 1, h.depth⟩

def commit (h : History) (document : String) : History :=
  if h.current = document then h else h.enter document

def undo? (h : History) : Option History :=
  if h.canUndo then some { h with index := h.index - 1 } else none

def redo? (h : History) : Option History :=
  if h.canRedo then some { h with index := h.index + 1 } else none

end History

inductive RequestKind where
  | generate
  | explain
  deriving DecidableEq, Repr

structure Session where
  document : String
  history : History
  /-- The time of the last edit, while it is not committed. -/
  dirtySince : Option Nat
  commitDelay : Nat
  seeding : Bool
  params : List Parameter
  /-- Counts the changes of the parameters. -/
  revision : Nat
  /-- The newest program, until it is taken. -/
  pending : Option Program
  error : Option CompileError
  alert : Option String
  explanation : Option String
  inFlight : Option RequestKind

inductive NoRequest where
  | emptyPrompt
  | busy
  | nothingToExplain
  deriving DecidableEq, Repr

def NoRequest.message : NoRequest → String
  | .emptyPrompt => "prompt is empty"
  | .busy => "an AI request is already in progress"
  | .nothingToExplain => "there is no compile error to explain"

def millisecond : Nat := 1000000

namespace Session

def isDirty (s : Session) : Bool := s.dirtySince.isSome

def isBusy (s : Session) : Bool := s.inFlight.isSome

def isGenerating (s : Session) : Bool := s.inFlight = some .generate

def documentChars (s : Session) : List Char := s.document.toList

def refreshParams (s : Session) : Session :=
  { s with
    params := reconcile s.params (extract s.seeding s.documentChars)
    revision := s.revision + 1 }

/-- Takes in the result of a compilation. An explanation does not outlive its error. -/
def afterCompile (s : Session) : Except CompileError Program → Session
  | .ok program => { s with pending := some program, error := none, explanation := none }
  | .error e => { s with error := some e }

def recompile (translator : Translator) (s : Session) : Session :=
  s.afterCompile (compile translator (Shader.assemble s.documentChars))

def refresh (translator : Translator) (s : Session) : Session :=
  s.refreshParams.recompile translator

def start (translator : Translator) (document : String) (settings : Settings.Editor) : Session :=
  refresh translator
    { document
      history := .start document settings.historyDepth
      dirtySince := none
      commitDelay := settings.commitDelay * millisecond
      seeding := settings.seeding
      params := []
      revision := 0
      pending := none
      error := none
      alert := none
      explanation := none
      inFlight := none }

def edit (translator : Translator) (s : Session) (document : String) (now : Nat) :
    Session × Bool :=
  if document = s.document then (s, false)
  else (refresh translator { s with document, dirtySince := some now }, true)

def commit (s : Session) : Session :=
  { s with history := s.history.commit s.document, dirtySince := none }

/-- Commits once no edit has come for the delay. -/
def tick (s : Session) (now : Nat) : Session × Bool :=
  match s.dirtySince with
  | some since => if s.commitDelay ≤ now - since then (s.commit, true) else (s, false)
  | none => (s, false)

def commitDirty (s : Session) : Session := if s.isDirty then s.commit else s

/-- Puts another document in place, with commits of what was there and of what comes. -/
def replace (translator : Translator) (s : Session) (document : String) : Session :=
  refresh translator { s.commitDirty with document }.commit

def load (translator : Translator) (s : Session) (document : String) : Session × Bool :=
  if document = s.document then (s, false) else (refresh translator { s with document }, true)

/-- Goes back to the last commit, or from there to the entry before. -/
def undo (translator : Translator) (s : Session) : Session × Bool :=
  if s.isDirty then load translator { s with dirtySince := none } s.history.current
  else
    match s.history.undo? with
    | some history => load translator { s with history } history.current
    | none => (s, false)

def redo (translator : Translator) (s : Session) : Session × Bool :=
  if s.isDirty then (s, false)
  else
    match s.history.redo? with
    | some history => load translator { s with history } history.current
    | none => (s, false)

def changeParams (s : Session) (params : List Parameter) : Session :=
  { s with params, revision := s.revision + 1 }

def setParam (s : Session) (name : String) (v : Value) : Except Refusal Session :=
  (setNamed name v s.params).map s.changeParams

def beginGeneration (s : Session) (prompt : String) : Except NoRequest (Session × Request) :=
  let prompt := String.ofList (Text.trim prompt.toList)
  if prompt.isEmpty then .error .emptyPrompt
  else if s.isBusy then .error .busy
  else .ok ({ s with inFlight := some .generate, alert := none }, .generate prompt s.document)

def beginExplain (s : Session) : Except NoRequest (Session × Request) :=
  match s.error with
  | none => .error .nothingToExplain
  | some e =>
    if s.isBusy then .error .busy
    else .ok ({ s with inFlight := some .explain }, .explain s.document e.message)

def report (s : Session) (alert : String) : Session := { s with alert := some alert }

def abandon (s : Session) (reason : String) : Session := { s with inFlight := none }.report reason

def finish (translator : Translator) (s : Session) (response : Response) : Session × Bool :=
  let s := { s with inFlight := none }
  match response with
  | .generated (.ok document) => (s.replace translator document, document ≠ s.document)
  | .generated (.error e) => (s.report s!"Generation failed: {e.message}", false)
  | .explained text => ({ s with explanation := some text }, false)

def dismiss (s : Session) : Session := { s with alert := none, explanation := none }

def takeProgram (s : Session) : Option Program × Session := (s.pending, { s with pending := none })

end Session
end ShaderBench.Editing
