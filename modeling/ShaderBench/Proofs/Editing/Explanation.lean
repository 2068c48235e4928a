import Mathlib.Data.List.Induction
import ShaderBench.Proofs.Editing.Effect
import ShaderBench.Proofs.Gpu.Lowering
/-
When an explanation stands without an error: only an answer that comes too late can bring one into
a session whose document compiles.
-/
namespace ShaderBench.Editing
open Gpu Param Control Assistant Session
variable {translator : Translator}

namespace Session

def Apt (s : Session) : Prop := s.error = none → s.explanation = none

theorem complaint_eq_none {document : String} :
    complaint? translator document = none ↔ (compiled? translator document).isSome := by
  unfold complaint? compiled?
  cases compile translator (Shader.assemble document.toList) with
  | ok program => simp [errorOf?, Except.toOption]
  | error e => simp [errorOf?, Except.toOption]

theorem apt_refresh (s : Session) : (refresh translator s).Apt := by
  rw [refresh_eq]
  intro compiles
  have some : (compiled? translator s.document).isSome := complaint_eq_none.mp compiles
  exact if_pos some

theorem Apt.effect {s s' : Session} (apt : s.Apt) (effect : Effect translator s s') : s'.Apt := by
  cases effect with
  | tuned params => exact apt
  | untuned effect =>
    cases effect with
    | refreshed document history dirtySince inFlight => exact apt_refresh _
    | noted history dirtySince pending alert explanation inFlight fewer =>
      intro compiles
      rcases fewer with same | none
      · exact same.trans (apt compiles)
      · exact none

end Session

theorem apt_step {d : Desk} (apt : d.session.Apt) (o : Operation) :
    (step translator d o).session.Apt ↔
      ∀ text, o = .finish (.explained text) → d.session.error ≠ none := by
  by_cases arrival : ∃ text, o = .finish (.explained text)
  · obtain ⟨text, same⟩ := arrival
    subst same
    constructor
    · intro after _ _ compiles
      cases after compiles
    · intro failing compiles
      exact absurd compiles (failing text rfl)
  · have other : ∀ text, o ≠ .finish (.explained text) := fun text same => arrival ⟨text, same⟩
    constructor
    · intro _ text same
      exact absurd same (other text)
    · intro _
      exact apt.effect (step_effect d o other)

namespace Record

theorem run_concat (d : Desk) (os : List Operation) (o : Operation) :
    run translator d (os ++ [o]) = (run translator d os).next translator o := by
  rw [run, List.foldl_append]
  rfl

theorem apt_iff {d : Desk} (apt : d.session.Apt) (os : List Operation) :
    (∀ before, before <+: os → (run translator d before).session.Apt) ↔
      ∀ before text, before ++ [.finish (.explained text)] <+: os →
        (run translator d before).session.error ≠ none := by
  constructor
  · intro every before text within
    have first : (run translator d before).session.Apt :=
      every before ((List.prefix_append _ _).trans within)
    have after := every _ within
    rw [run_concat] at after
    exact (apt_step first _).mp after text rfl
  · -- By induction on the run from its end, since a prefix is what has happened so far.
    induction os using List.reverseRecOn with
    | nil =>
      intro _ before within
      rw [List.prefix_nil.mp within]
      exact apt
    | append_singleton os o ih =>
      intro failing
      have earlier : ∀ before, before <+: os → (run translator d before).session.Apt := by
        apply ih
        intro before text within
        exact failing before text (within.trans (List.prefix_append _ _))
      intro before within
      rcases List.prefix_concat_iff.mp within with whole | within
      · subst whole
        rw [run_concat]
        refine (apt_step (earlier os List.prefix_rfl) o).mpr ?_
        intro text same
        subst same
        exact failing os text List.prefix_rfl
      · exact earlier before within

end Record

theorem apt_start (document : String) (settings : Settings.Editor) :
    (Session.start translator document settings).Apt := by
  rw [Session.start]
  exact apt_refresh _

/-- In every state of a run of a session there is no explanation without an error, exactly if no
    explanation arrives in a state without one. -/
theorem explanations_apt (translator : Translator) (document : String)
    (settings : Settings.Editor) (cursor : Cursor) (os : List Operation) :
    let session := fun before =>
      (Record.run translator ⟨Session.start translator document settings, cursor⟩ before).session
    (∀ before, before <+: os → (session before).error = none →
        (session before).explanation = none) ↔
      ∀ before text, before ++ [.finish (.explained text)] <+: os →
        (session before).error ≠ none :=
  Record.apt_iff (apt_start document settings) os

/-- Every explanation of a run is the response to a request that the session waits for. -/
def Answered (translator : Translator) : Desk → List Operation → Prop
  | _, [] => True
  | d, o :: os =>
    (∀ text, o = .finish (.explained text) → d.session.inFlight = some .explain) ∧
      Answered translator (step translator d o) os

/-- Where an error is mended while its explanation is on the way, the explanation comes too late. -/
theorem late_explanation {s : Session} {e : CompileError} (failing : s.error = some e)
    (idle : s.inFlight = none) {mended : String} (other : mended ≠ s.document)
    (compiles : complaint? translator mended = none) (cursor : Cursor) (now : Nat)
    (text : String) :
    let os := [.beginExplain, .edit mended now, .finish (.explained text)]
    Answered translator ⟨s, cursor⟩ os ∧
      (Record.run translator ⟨s, cursor⟩ os).session.error = none ∧
      (Record.run translator ⟨s, cursor⟩ os).session.explanation = some text := by
  intro os
  have begun : step translator ⟨s, cursor⟩ .beginExplain =
      ⟨{ s with inFlight := some .explain }, cursor⟩ := by
    simp only [step, beginExplain, failing, isBusy, idle]
    rfl
  have edited : (step translator ⟨{ s with inFlight := some .explain }, cursor⟩
      (.edit mended now)).session =
        refresh translator
          { s with document := mended, dirtySince := some now, inFlight := some .explain } := by
    simp only [step, edit, if_neg other]
  refine ⟨⟨?_, ?_, ?_, trivial⟩, ?_, rfl⟩
  · intro text same
    cases same
  · intro text same
    cases same
  · intro _ _
    rw [begun, edited, refresh_eq]
  · change (step translator (step translator ⟨s, cursor⟩ .beginExplain)
      (.edit mended now)).session.error = none
    rw [begun, edited, refresh_eq]
    exact compiles

def endReader : Translator := fun glsl =>
  if glsl.getLast? = some '\x7d' then .accepted ""
  else .unreadable [⟨some 40, "Unknown variable: missingThing"⟩]

theorem complaint_endReader {document : String} {c : Char}
    (bare : membersOf document.toList = [])
    (last : (Shader.body document.toList).getLast? = some c) :
    complaint? endReader document = none ↔ c = '\x7d' := by
  obtain ⟨front, first, lowered⟩ := lower_bare bare
  have ends : (front ++ Shader.body document.toList).getLast? = some c := by
    rw [List.getLast?_append, last, Option.some_or]
  rw [complaint?, compile, lowered]
  simp only [Lowered.translate, endReader, ends, Option.some.injEq]
  by_cases closed : c = '\x7d'
  · simp [closed, errorOf?]
  · simp [closed, errorOf?]

theorem explained_too_late :
    let broken := "float4 mainImage(float2 uv) \x7b return float4(missingThing); \x7d\n"
    let mended := "float4 mainImage(float2 uv) \x7b return float4(uv, 0.0, 1.0); \x7d"
    let d : Desk := ⟨.start endReader broken ⟨100, 750, false, true⟩, .home⟩
    let os := [.beginExplain, .edit mended 0, .finish (.explained "Declare missingThing.")]
    Answered endReader d os ∧ (Record.run endReader d os).session.error = none ∧
      (Record.run endReader d os).session.explanation = some "Declare missingThing." := by
  intro broken mended d os
  have failing : complaint? endReader broken ≠ none := by
    rw [Ne, @complaint_endReader broken '\n' (by decide +kernel) (by decide +kernel)]
    decide
  have compiles : complaint? endReader mended = none := by
    rw [@complaint_endReader mended '\x7d' (by decide +kernel) (by decide +kernel)]
  obtain ⟨e, error⟩ := Option.ne_none_iff_exists'.mp failing
  apply late_explanation
  · rw [Session.start, refresh_eq]
    exact error
  · rw [Session.start, refresh_eq]
  · rw [start_document]
    decide
  · exact compiles

end ShaderBench.Editing
