import ShaderBench.Control.Desk
/-
Runs of a session at its desk: what can be done to it, one step, and the record of a whole run.
The record is newest first, so that the present stands at its head.
-/
namespace ShaderBench.Editing
open Gpu Param Control Assistant

inductive Operation where
  | edit (document : String) (now : Nat)
  | tick (now : Nat)
  | commit
  | replace (document : String)
  | undo
  | redo
  | setParam (name : String) (v : Value)
  | command (c : Command)
  | beginGeneration (prompt : String)
  | beginExplain
  | finish (r : Response)
  | abandon (reason : String)
  | report (alert : String)
  | takeProgram
  | dismiss

def compiled? (translator : Translator) (document : String) : Option Program :=
  (compile translator (Shader.assemble document.toList)).toOption

def errorOf? {ε α : Type} : Except ε α → Option ε
  | .ok _ => none
  | .error e => some e

def complaint? (translator : Translator) (document : String) : Option CompileError :=
  errorOf? (compile translator (Shader.assemble document.toList))

/-- The session after an attempt that may be refused. -/
def orElseKeep {ε : Type} (s : Session) (attempt : Except ε Session) : Session :=
  match attempt with
  | .ok s' => s'
  | .error _ => s

def step (translator : Translator) (d : Desk) : Operation → Desk
  | .edit document now => { d with session := (d.session.edit translator document now).1 }
  | .tick now => { d with session := (d.session.tick now).1 }
  | .commit => { d with session := d.session.commit }
  | .replace document => { d with session := d.session.replace translator document }
  | .undo => { d with session := (d.session.undo translator).1 }
  | .redo => { d with session := (d.session.redo translator).1 }
  | .setParam name v => { d with session := orElseKeep d.session (d.session.setParam name v) }
  | .command c => (d.apply translator c).1
  | .beginGeneration prompt =>
    { d with session := orElseKeep d.session ((d.session.beginGeneration prompt).map Prod.fst) }
  | .beginExplain =>
    { d with session := orElseKeep d.session (d.session.beginExplain.map Prod.fst) }
  | .finish r => { d with session := (d.session.finish translator r).1 }
  | .abandon reason => { d with session := d.session.abandon reason }
  | .report alert => { d with session := d.session.report alert }
  | .takeProgram => { d with session := d.session.takeProgram.2 }
  | .dismiss => { d with session := d.session.dismiss }

def handed (d : Desk) : Operation → Option Program
  | .takeProgram => d.session.takeProgram.1
  | _ => none

/-- A run so far: where it stands, and the documents and programs that it has seen. -/
structure Record where
  desk : Desk
  documents : List String
  taken : List Program

namespace Record

def start (d : Desk) : Record := ⟨d, [d.session.document], []⟩

def next (translator : Translator) (r : Record) (o : Operation) : Record :=
  let d := step translator r.desk o
  ⟨d, d.session.document :: r.documents, (handed r.desk o).toList ++ r.taken⟩

def run (translator : Translator) (d : Desk) (os : List Operation) : Record :=
  os.foldl (next translator) (start d)

def session (r : Record) : Session := r.desk.session

def newest (r : Record) : Option Program := r.session.pending.or r.taken.head?

/-- The program of the most recent document of the run that compiles. -/
def lastCompiled (translator : Translator) (r : Record) : Option Program :=
  r.documents.findSome? (compiled? translator)

end Record

theorem run_invariant {translator : Translator} {d : Desk} {P : Record → Prop}
    (first : P (.start d)) (keeps : ∀ r o, P r → P (r.next translator o))
    (os : List Operation) : P (.run translator d os) := by
  suffices every : ∀ r, P r → P (os.foldl (Record.next translator) r) from every _ first
  induction os with
  | nil => intro r holds; exact holds
  | cons o os ih => intro r holds; exact ih _ (keeps r o holds)

end ShaderBench.Editing
