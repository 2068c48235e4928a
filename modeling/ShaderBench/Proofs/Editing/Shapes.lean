import ShaderBench.Proofs.Editing.Ranges
import ShaderBench.Proofs.Param.Shapes
/-
The form of parameters over a run. Kinds, defaults and ranges are those of the document, so only the
live values have to be followed, from their declarations through the documents and the steps.
-/
namespace ShaderBench.Editing
open Gpu Param Control Control.Desk Assistant Session
variable {translator : Translator} {seeding : Bool}

theorem Session.Coherent.wellFormed {s : Session} (coherent : Coherent translator seeding s)
    (fit : AllFit s.params) {p : Parameter} (listed : p ∈ s.params) : p.WellFormed := by
  obtain ⟨q, declared, same⟩ := coherent.extracted listed
  have made : q.WellFormed := extract_wellFormed declared
  have declared' : q.unset.WellFormed :=
    ⟨made.default, made.default, made.ranged, made.ordered, made.holds⟩
  rw [same] at declared'
  exact wellFormed_of_unset declared' (fit p listed)

theorem fit_setParam {s : Session} (fit : AllFit s.params) (name : String) (v : Value) :
    AllFit (orElseKeep s (s.setParam name v)).params := by
  rw [setParam]
  cases set : setNamed name v s.params with
  | ok ps => exact fit_setNamed fit set
  | error e => exact fit

theorem fit_adjust {d : Desk} (coherent : Coherent translator seeding d.session)
    (fit : AllFit d.params) (direction : Direction) :
    AllFit (d.clampCursor.adjust direction).1.params := by
  rw [params_adjust]
  cases found : d.selected with
  | none => exact fit
  | some p =>
    have formed : p.WellFormed := coherent.wellFormed fit (List.mem_of_getElem? found)
    exact fit_put fit _ (stepped_fits formed _ direction)

theorem fit_reset {d : Desk} (coherent : Coherent translator seeding d.session)
    (fit : AllFit d.params) : AllFit d.clampCursor.reset.1.params := by
  rw [params_reset]
  cases found : d.selected with
  | none => exact fit
  | some p =>
    have formed : p.WellFormed := coherent.wellFormed fit (List.mem_of_getElem? found)
    exact fit_put fit _ formed.default

theorem fit_step {d : Desk} (coherent : Coherent translator seeding d.session)
    (fit : AllFit d.session.params) (o : Operation) :
    AllFit (step translator d o).session.params := by
  cases quiet : o.tunes with
  | false =>
    rw [step_carries quiet coherent]
    exact fit_reconcile fit (fit_extract seeding _)
  | true =>
    cases o with
    | setParam name v => exact fit_setParam fit name v
    | command c =>
      cases c with
      | increase => exact fit_adjust coherent fit .up
      | decrease => exact fit_adjust coherent fit .down
      | resetParam => exact fit_reset coherent fit
      | _ => cases quiet
    | _ => cases quiet

theorem fit_deskAfter {d : Desk} (coherent : Coherent translator seeding d.session)
    (fit : AllFit d.session.params) (os : List Operation) :
    AllFit (deskAfter translator d os).session.params := by
  induction os generalizing d with
  | nil => exact fit
  | cons o os ih => exact ih (step_coherent o coherent) (fit_step coherent fit o)

theorem deskAfter_wellFormed (document : String) (settings : Settings.Editor) (cursor : Cursor)
    (os : List Operation) {p : Parameter}
    (listed : p ∈ (deskAfter translator ⟨.start translator document settings, cursor⟩
      os).session.params) : p.WellFormed := by
  have coherent : Coherent translator settings.seeding (.start translator document settings) :=
    start_coherent document settings
  have first : AllFit (Session.start translator document settings).params := by
    rw [start_params]
    exact fit_extract _ _
  exact (deskAfter_coherent coherent os).wellFormed (fit_deskAfter coherent first os) listed

/-- In every state of every run the parameters have the right form, and a step of any of their
    components leads to a value of the same shape: it neither misses the kind nor clamps to bounds
    that are not in order. -/
theorem parameters_wellFormed (translator : Translator) (document : String)
    (settings : Settings.Editor) (cursor : Cursor) (os : List Operation) :
    (∀ p ∈ (deskAfter translator ⟨.start translator document settings, cursor⟩ os).session.params,
      p.WellFormed ∧ ∀ component direction,
        ∃ v, nextValue? p component direction = some (some v) ∧ v.fits p.kind) ∧
      ∀ (direction : Direction) (x : Single),
        (x + direction.apply vectorStep).clamp? .zero (.ofNat 1) =
          some (stepComponent .color direction x) := by
  refine ⟨?_, stepComponent_color⟩
  intro p listed
  have formed : p.WellFormed := deskAfter_wellFormed document settings cursor os listed
  exact ⟨formed, formed.nextValue?⟩

theorem step_decrease (d : Desk) : (deskAfter translator d [.command .decrease]).session.params =
    (d.clampCursor.adjust .down).1.params := rfl

/-- A scalar that a step has made a number no more is still of the right form. -/
theorem gain_wellFormed :
    let gain : Parameter :=
      ⟨"gain", .scalar, .scalar .nan, .scalar .infinity, some ⟨.zero, .infinity⟩⟩
    let d : Desk := ⟨.start (fun _ => .invalid "") "uniform float gain = 1e40;\n"
      ⟨100, 750, true, true⟩, .home⟩
    gain ∈ (deskAfter (fun _ => .invalid "") d [.command .decrease]).session.params ∧
      gain.WellFormed := by
  intro gain d
  let first : Parameter :=
    ⟨"gain", .scalar, .scalar .infinity, .scalar .infinity, some ⟨.zero, .infinity⟩⟩
  have only : extract true "uniform float gain = 1e40;\n".toList = [first] := by
    decide +kernel
  have params : d.session.params = [first] := (start_params _ _).trans only
  have home : d.clampCursor.cursor = .home := by
    rw [clampCursor, Desk.params, params]
    decide
  have listed : gain ∈
      (deskAfter (fun _ => .invalid "") d [.command .decrease]).session.params := by
    rw [step_decrease, params_adjust, selected_home rfl params, home, Desk.params, params]
    decide +kernel
  exact ⟨listed, ((parameters_wellFormed _ _ ⟨100, 750, true, true⟩ .home _).1 gain listed).1⟩

end ShaderBench.Editing
