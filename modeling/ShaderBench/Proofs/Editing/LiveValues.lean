import ShaderBench.Proofs.Editing.Carrying
import ShaderBench.Proofs.Editing.Kept
/-
Live values over a stretch of a run. As long as every document declares a name with one kind, the
value under it is the one that an operation gave to it last, whatever else the documents change.
-/
namespace ShaderBench.Param

def valueNamed (ps : List Parameter) (name : String) : Option Value :=
  (named ps name).map Parameter.value

theorem named_cons (p : Parameter) (ps : List Parameter) (name : String) :
    named (p :: ps) name = if p.name = name then some p else named ps name := by
  unfold named
  by_cases same : p.name = name
  · rw [List.find?_cons_of_pos (by simpa using same), if_pos same]
  · rw [List.find?_cons_of_neg (by simpa using same), if_neg same]

def setValue? (ps : List Parameter) (name : String) (v : Value) : Option Value :=
  if (kindNamed ps name).any v.fits then some v else none

/-- Setting a name gives it the value or is refused; no other name is touched. -/
theorem setNamed_outcome (ps : List Parameter) (name : String) (v : Value) :
    (setValue? ps name v = some v ∧ ∃ ps', setNamed name v ps = .ok ps' ∧
        ∀ other, valueNamed ps' other = if other = name then some v else valueNamed ps other) ∨
      setValue? ps name v = none ∧ ∃ e, setNamed name v ps = .error e := by
  induction ps with
  | nil => exact .inr ⟨rfl, _, rfl⟩
  | cons p ps ih =>
    by_cases here : p.name = name
    · have value : setValue? (p :: ps) name v = if v.fits p.kind then some v else none := by
        simp [setValue?, kindNamed, named_cons, here]
      by_cases fits : v.fits p.kind
      · left
        refine ⟨value.trans (if_pos fits), { p with value := v } :: ps, ?_, ?_⟩
        · simp [setNamed, here, Parameter.set, fits, Except.map]
        · intro other
          simp only [valueNamed, named_cons, here]
          by_cases same : name = other
          · simp [same]
          · simp [same, Ne.symm same]
      · right
        refine ⟨value.trans (if_neg fits), .mismatch name p.kind v, ?_⟩
        simp [setNamed, here, Parameter.set, fits, Except.map]
    · have kind : kindNamed (p :: ps) name = kindNamed ps name := by
        rw [kindNamed, named_cons, if_neg here, kindNamed]
      have later : setValue? (p :: ps) name v = setValue? ps name v := by
        rw [setValue?, kind, setValue?]
      rw [later]
      rcases ih with ⟨set, ps', done, values⟩ | ⟨refused, e, failed⟩
      · left
        refine ⟨set, p :: ps', ?_, ?_⟩
        · simp [setNamed, here, done, Except.map]
        · intro other
          have value := values other
          simp only [valueNamed, named_cons] at value ⊢
          by_cases first : p.name = other
          · subst first
            simp [here]
          · simp only [first, if_false]
            exact value
      · right
        refine ⟨refused, e, ?_⟩
        simp [setNamed, here, failed, Except.map]

/-- Where one parameter is replaced by another of its name, only the value of this name changes. -/
theorem valueNamed_put {ps : List Parameter} (distinct : Distinct ps) {i : Nat}
    {p p' : Parameter} (at_i : ps[i]? = some p) (same : p'.name = p.name) (name : String) :
    valueNamed (ps.set i p') name = if p.name = name then some p'.value else valueNamed ps name := by
  induction ps generalizing i with
  | nil => cases at_i
  | cons q ps ih =>
    obtain ⟨others, distinct'⟩ := List.nodup_cons.mp distinct
    cases i with
    | zero =>
      have first : q = p := Option.some.inj at_i
      subst first
      simp only [List.set_cons_zero, valueNamed, named_cons, same]
      by_cases called : q.name = name
      · simp [called]
      · simp [called]
    | succ i =>
      rw [List.getElem?_cons_succ] at at_i
      have other : q.name ≠ p.name := by
        intro alike
        exact others (alike ▸ List.mem_map_of_mem (List.mem_of_getElem? at_i))
      have rest := ih distinct' at_i
      simp only [List.set_cons_succ, valueNamed, named_cons] at rest ⊢
      by_cases called : q.name = name
      · have away : p.name ≠ name := fun alike => other (called.trans alike.symm)
        simp [called, away]
      · simp only [called, if_false]
        exact rest

end ShaderBench.Param

namespace ShaderBench.Control.Desk
open Param

def selected (d : Desk) : Option Parameter := d.clampCursor.cursor.selected d.params

def steppedValue (d : Desk) (direction : Direction) (p : Parameter) : Option Value :=
  match p.adjust d.clampCursor.cursor.component direction with
  | .changed p' => some p'.value
  | .unchanged | .badRange => none

def tunedValue (d : Desk) (name : String) (new : Parameter → Option Value) : Option Value :=
  d.selected.bind fun p => if p.name = name then new p else none

theorem adjust_name {p p' : Parameter} {component : Nat} {direction : Direction}
    (changed : p.adjust component direction = .changed p') : p'.name = p.name := by
  have same := adjust_unset changed
  simp only [Parameter.unset, Parameter.mk.injEq] at same
  exact same.1

theorem valueNamed_putSelected {d : Desk} (distinct : Distinct d.params) {p p' : Parameter}
    (found : d.cursor.selected d.params = some p) (same : p'.name = p.name) (name : String) :
    valueNamed (d.putSelected p').params name =
      if p.name = name then some p'.value else valueNamed d.params name :=
  valueNamed_put distinct found same name

theorem valueNamed_putSame {d : Desk} {p : Parameter}
    (found : d.cursor.selected d.params = some p) (name : String) :
    valueNamed (d.putSelected p).params name = valueNamed d.params name := by
  have own : d.params.set d.cursor.index p = d.params := by
    obtain ⟨bound, here⟩ := List.getElem?_eq_some_iff.mp found
    rw [← here]
    exact List.set_getElem_self bound
  change valueNamed (d.params.set d.cursor.index p) name = _
  rw [own]

theorem value_adjust {d : Desk} (distinct : Distinct d.params) (direction : Direction)
    (name : String) :
    valueNamed (d.clampCursor.adjust direction).1.params name =
      (d.tunedValue name (d.steppedValue direction)).or (valueNamed d.params name) := by
  have distinct' : Distinct d.clampCursor.params := distinct
  cases found : d.selected with
  | none =>
    have found' : d.clampCursor.cursor.selected d.clampCursor.params = none := found
    rw [adjust, found', tunedValue, found]
    rfl
  | some p =>
    have found' : d.clampCursor.cursor.selected d.clampCursor.params = some p := found
    have kept : valueNamed (d.clampCursor.putSelected p).params name = valueNamed d.params name :=
      valueNamed_putSame found' name
    rw [adjust, found', tunedValue, found, Option.bind_some, steppedValue]
    cases moved : p.adjust d.clampCursor.cursor.component direction with
    | changed p' =>
      simp only [moved]
      rw [valueNamed_putSelected distinct' found' (adjust_name moved)]
      by_cases called : p.name = name
      · simp [called]
      · simp only [called, if_false, Option.none_or]
        rfl
    | unchanged => simp only [moved, kept, ite_self, Option.none_or]
    | badRange => simp only [moved, kept, ite_self, Option.none_or]

theorem value_reset {d : Desk} (distinct : Distinct d.params) (name : String) :
    valueNamed d.clampCursor.reset.1.params name =
      (d.tunedValue name fun p => some p.default).or (valueNamed d.params name) := by
  have distinct' : Distinct d.clampCursor.params := distinct
  cases found : d.selected with
  | none =>
    have found' : d.clampCursor.cursor.selected d.clampCursor.params = none := found
    rw [reset, found', tunedValue, found]
    rfl
  | some p =>
    have found' : d.clampCursor.cursor.selected d.clampCursor.params = some p := found
    have same : p.reset.name = p.name := rfl
    rw [reset, found', tunedValue, found, Option.bind_some]
    dsimp only
    rw [valueNamed_putSelected distinct' found' same]
    by_cases called : p.name = name
    · simp only [called, if_true, Option.some_or]
      rfl
    · simp only [called, if_false, Option.none_or]
      rfl

end ShaderBench.Control.Desk

namespace ShaderBench.Editing
open Gpu Param Control Control.Desk Assistant Session
variable {translator : Translator} {seeding : Bool}

def given (d : Desk) (name : String) : Operation → Option Value
  | .setParam other v => if other = name then setValue? d.session.params name v else none
  | .command .increase => d.tunedValue name (d.steppedValue .up)
  | .command .decrease => d.tunedValue name (d.steppedValue .down)
  | .command .resetParam => d.tunedValue name fun p => some p.default
  | _ => none

/-- The value that the operations of a stretch give to a name last. -/
def lastGiven (translator : Translator) (name : String) : Desk → List Operation → Option Value
  | _, [] => none
  | d, o :: os => (lastGiven translator name (step translator d o) os).or (given d name o)

def deskAfter (translator : Translator) (d : Desk) (os : List Operation) : Desk :=
  os.foldl (step translator) d

theorem deskAfter_concat (d : Desk) (os : List Operation) (o : Operation) :
    deskAfter translator d (os ++ [o]) = step translator (deskAfter translator d os) o := by
  rw [deskAfter, List.foldl_append]
  rfl

def Declares (seeding : Bool) (document : List Char) (name : String) (kind : Kind) : Prop :=
  ∃ p ∈ extract seeding document, p.name = name ∧ p.kind = kind

theorem Declares.kindNamed {document : List Char} {name : String} {kind : Kind}
    (declares : Declares seeding document name kind) :
    kindNamed (extract seeding document) name = some kind := by
  obtain ⟨p, listed, called, same⟩ := declares
  rw [Param.kindNamed, ← called, (distinct_extract seeding document).named listed, ← same]
  rfl

theorem given_quiet (d : Desk) (name : String) {o : Operation} (quiet : o.tunes = false) :
    given d name o = none := by
  cases o with
  | setParam other v => cases quiet
  | command c =>
    cases c with
    | increase | decrease | resetParam => cases quiet
    | _ => rfl
  | _ => rfl

theorem value_setParam (s : Session) (name other : String) (v : Value) :
    valueNamed (orElseKeep s (s.setParam other v)).params name =
      (if other = name then setValue? s.params name v else none).or (valueNamed s.params name) := by
  rcases setNamed_outcome s.params other v with ⟨set, ps', done, values⟩ | ⟨refused, e, failed⟩
  · have value : valueNamed (orElseKeep s (s.setParam other v)).params name =
        valueNamed ps' name := by
      rw [setParam, done]
      rfl
    rw [value, values]
    by_cases same : other = name
    · subst same
      simp [set]
    · simp [same, Ne.symm same]
  · have value : orElseKeep s (s.setParam other v) = s := by
      rw [setParam, failed]
      rfl
    rw [value]
    by_cases same : other = name
    · subst same
      simp [refused]
    · simp [same]

theorem step_value {d : Desk} {o : Operation} {name : String} {kind : Kind}
    (coherent : Coherent translator seeding d.session)
    (before : Declares seeding d.session.documentChars name kind)
    (after : Declares seeding (step translator d o).session.documentChars name kind) :
    valueNamed (step translator d o).session.params name =
      (given d name o).or (valueNamed d.session.params name) := by
  cases quiet : o.tunes with
  | false =>
    rw [given_quiet d name quiet, Option.none_or, valueNamed, step_carries quiet coherent]
    apply value_reconcile_kept
    rw [after.kindNamed, coherent.kindNamed, before.kindNamed]
  | true =>
    have distinct : Distinct d.params := coherent.distinct
    cases o with
    | setParam other v => exact value_setParam d.session name other v
    | command c =>
      cases c with
      | increase => exact value_adjust distinct .up name
      | decrease => exact value_adjust distinct .down name
      | resetParam => exact value_reset distinct name
      | _ => cases quiet
    | _ => cases quiet

theorem deskAfter_coherent {d : Desk} (coherent : Coherent translator seeding d.session)
    (os : List Operation) : Coherent translator seeding (deskAfter translator d os).session := by
  induction os generalizing d with
  | nil => exact coherent
  | cons o os ih => exact ih (step_coherent o coherent)

theorem run_value {d : Desk} {name : String} {kind : Kind}
    (coherent : Coherent translator seeding d.session) {os : List Operation}
    (held : ∀ front, front <+: os →
      Declares seeding (deskAfter translator d front).session.documentChars name kind) :
    valueNamed (deskAfter translator d os).session.params name =
      (lastGiven translator name d os).or (valueNamed d.session.params name) := by
  induction os generalizing d with
  | nil => rfl
  | cons o os ih =>
    have first : Declares seeding d.session.documentChars name kind := held [] (List.nil_prefix)
    have second : Declares seeding (step translator d o).session.documentChars name kind :=
      held [o] (by simp)
    have rest := ih (step_coherent o coherent) fun front within =>
      held (o :: front) (List.cons_prefix_cons.mpr ⟨rfl, within⟩)
    rw [lastGiven, Option.or_assoc, ← step_value coherent first second]
    exact rest

/-- Over a stretch of a run in which every document declares a name with one kind, the name has a
    live value all the time: at the end the one that the stretch gave to it last, or else the one
    that it had before. -/
theorem values_survive (translator : Translator) (document : String) (settings : Settings.Editor)
    (cursor : Cursor) (before stretch : List Operation) (name : String) (kind : Kind) :
    let first := deskAfter translator ⟨.start translator document settings, cursor⟩ before
    (∀ front, front <+: stretch →
      Declares settings.seeding (deskAfter translator first front).session.documentChars name
        kind) →
    ∃ old, valueNamed first.session.params name = some old ∧
      valueNamed (deskAfter translator first stretch).session.params name =
        some ((lastGiven translator name first stretch).getD old) := by
  intro first held
  have coherent : Coherent translator settings.seeding first.session :=
    deskAfter_coherent (start_coherent document settings) before
  have known : kindNamed first.session.params name = some kind := by
    rw [coherent.kindNamed]
    exact (held [] List.nil_prefix).kindNamed
  obtain ⟨p, found, _⟩ := Option.map_eq_some_iff.mp known
  have old : valueNamed first.session.params name = some p.value := by
    rw [valueNamed, found]
    rfl
  refine ⟨p.value, old, ?_⟩
  rw [run_value coherent held, old]
  cases lastGiven translator name first stretch <;> rfl

theorem step_setParam (d : Desk) (name : String) (v : Value) :
    (step translator d (.setParam name v)).session.document = d.session.document :=
  (setParam_alike d.session name v).document

theorem step_generated (d : Desk) (document : String) :
    (step translator d (.finish (.generated (.ok document)))).session.document = document :=
  replace_document { d.session with inFlight := none } document

theorem step_edit (d : Desk) (document : String) (now : Nat) :
    (step translator d (.edit document now)).session.document = document :=
  edit_document d.session document now

theorem gain_survives :
    let d : Desk := ⟨.start (fun _ => .invalid "") "uniform float gain;" ⟨100, 750, false, true⟩,
      .home⟩
    let generated := "uniform float2 place;\nuniform float gain;\n"
    let broken := "uniform float gain; float4 mainImage("
    let os := [.setParam "gain" (.scalar (.ofNat 3)), .finish (.generated (.ok generated)),
      .edit broken 0]
    (∀ front, front <+: os → Declares false
        (deskAfter (fun _ => .invalid "") d front).session.documentChars "gain" .scalar) ∧
      valueNamed (deskAfter (fun _ => .invalid "") d os).session.params "gain" =
        some (.scalar (.ofNat 3)) := by
  intro d generated broken os
  have first : d.session.document = "uniform float gain;" := start_document _ _
  have set : (deskAfter (fun _ => .invalid "") d (os.take 1)).session.document =
      "uniform float gain;" := by
    rw [← first]
    exact @step_setParam (fun _ => .invalid "") d _ _
  have replaced : (deskAfter (fun _ => .invalid "") d (os.take 2)).session.document = generated :=
    step_generated (deskAfter (fun _ => .invalid "") d (os.take 1)) generated
  have edited : (deskAfter (fun _ => .invalid "") d os).session.document = broken :=
    step_edit (deskAfter (fun _ => .invalid "") d (os.take 2)) broken 0
  have held : ∀ front, front <+: os → Declares false
      (deskAfter (fun _ => .invalid "") d front).session.documentChars "gain" .scalar := by
    intro front within
    have declares : ∀ document ∈ ["uniform float gain;", generated, broken],
        ∃ p ∈ extract false document.toList, p.name = "gain" ∧ p.kind = .scalar := by
      decide +kernel
    rw [List.prefix_iff_eq_take] at within
    rw [within]
    have short : front.length = 0 ∨ front.length = 1 ∨ front.length = 2 ∨ front.length = 3 := by
      have bound : front.length ≤ os.length := within ▸ List.length_take_le' _ _
      have three : os.length = 3 := rfl
      omega
    rw [Declares, Session.documentChars]
    apply declares
    rcases short with count | count | count | count
    · rw [count]
      exact first ▸ List.mem_cons_self
    · rw [count, set]
      exact List.mem_cons_self
    · rw [count, replaced]
      exact List.mem_cons_of_mem _ List.mem_cons_self
    · rw [count, show os.take 3 = os from rfl, edited]
      exact List.mem_cons_of_mem _ (List.mem_cons_of_mem _ List.mem_cons_self)
  refine ⟨held, ?_⟩
  obtain ⟨old, _, value⟩ := values_survive (fun _ => .invalid "") "uniform float gain;"
    ⟨100, 750, false, true⟩ .home [] os "gain" .scalar held
  have params : d.session.params = extract false "uniform float gain;".toList := start_params _ _
  have last : lastGiven (fun _ => .invalid "") "gain" d os = some (.scalar (.ofNat 3)) := by
    simp only [os, lastGiven, given, if_true, Option.none_or, params]
    decide +kernel
  exact value.trans (congrArg (fun given => some (given.getD old)) last)

end ShaderBench.Editing
