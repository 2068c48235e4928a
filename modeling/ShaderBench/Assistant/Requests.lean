import ShaderBench.Text.Word
/-
What the text service is asked, the check of its replies, and the worker that puts requests to it,
one after the other, while the rest of the program goes on.
-/
namespace ShaderBench.Assistant

inductive Request where
  | generate (prompt code : String)
  | explain (code error : String)
  deriving DecidableEq, Repr

/-- Why there is no text. Where a call has failed, the reason is in the words of the client that made
    it. -/
inductive Failure where
  | keyMissing (name : String)
  | empty
  | unsendable {reason : String}
  | unreachable {reason : String}
  | refused {reason : String} (status : Nat)
  | unreadable {reason : String}
  deriving DecidableEq, Repr

def Failure.message : Failure → String
  | .keyMissing name => s!"no API key configured (set {name})"
  | .empty => "service returned no text"
  | @unsendable reason | @unreachable reason | @refused reason _ | @unreadable reason =>
    s!"request failed: {reason}"

abbrev Reply := Except Failure String

/-- A reply after checks: a document, or an explanation that can always be shown. -/
inductive Response where
  | generated (document : Except Failure String)
  | explained (text : String)

/- The fences of code blocks in a reply: three backticks, with or without a language. -/

def languages : List (List Char) := ["glsl".toList, "hlsl".toList, "c".toList]

def dropLanguage (s : List Char) : List Char :=
  match languages.find? fun l => l.isPrefixOf s with
  | some l => s.drop l.length
  | none => s

theorem length_dropLanguage_le (s : List Char) : (dropLanguage s).length ≤ s.length := by
  unfold dropLanguage
  split
  · simp
  · exact Nat.le_refl _

/-- A text without its fences, which are taken from the left. -/
def dropFences : List Char → List Char
  | '`' :: '`' :: '`' :: rest => dropFences (dropLanguage rest)
  | c :: rest => c :: dropFences rest
  | [] => []
termination_by s => s.length
decreasing_by
  · have := length_dropLanguage_le rest
    simp only [List.length_cons]
    omega
  · simp

def code (reply : List Char) : List Char := Text.trim (dropFences reply)

/- The messages in which requests are put to the service, and the check of its replies. -/

def excerpt (length : Nat) (document : List Char) : List Char :=
  document.take length ++ if length < document.length then "...".toList else []

def Request.message (contextLength : Nat) : Request → String
  | .generate prompt code =>
    s!"Current Code:\n{String.ofList (excerpt contextLength code.toList)}\n\nRequest: {prompt}"
  | .explain code error =>
    "The following shader code failed to compile. Explain the error and suggest a fix briefly." ++
      s!"\n\nError: {error}\n\nCode:\n{code}"

def noExplanation : String := "Could not reach the AI service to explain this error."

def documentOf (reply : Reply) : Except Failure String := do
  let document := code (← reply).toList
  if document.isEmpty then .error .empty else .ok (String.ofList document)

def explanationOf : Reply → String
  | .ok text =>
    let text := Text.trim text.toList
    if text.isEmpty then noExplanation else String.ofList text
  | .error _ => noExplanation

def Request.answer (r : Request) (reply : Reply) : Response :=
  match r with
  | .generate _ _ => .generated (documentOf reply)
  | .explain _ _ => .explained (explanationOf reply)

structure Worker where
  /-- Requests that wait, the oldest first. -/
  waiting : List Request
  current : Option Request
  done : List Response

namespace Worker

def idle : Worker := ⟨[], none, []⟩

def submit (w : Worker) (r : Request) : Worker := { w with waiting := w.waiting ++ [r] }

def begin (w : Worker) : Worker :=
  match w.current, w.waiting with
  | none, r :: rest => { w with waiting := rest, current := some r }
  | _, _ => w

def reply (w : Worker) (reply : Reply) : Worker :=
  match w.current with
  | some r => { w with current := none, done := w.done ++ [r.answer reply] }
  | none => w

def fetch (w : Worker) : List Response × Worker := (w.done, { w with done := [] })

end Worker
end ShaderBench.Assistant
