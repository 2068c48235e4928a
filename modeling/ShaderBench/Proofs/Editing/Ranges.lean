import ShaderBench.Proofs.Editing.LiveValues
import ShaderBench.Proofs.Param.Ranges
/-
Live values and ranges over a run. A value leaves its range where it is taken over by a declaration
with another range, or where it is stepped away from the infinity that it is; otherwise it stays.
-/
namespace ShaderBench.Param

def AllBounded (ps : List Parameter) : Prop := ∀ p ∈ ps, p.Bounded

/-- The live values that the declarations of a document take over lie in the new ranges. -/
def Fitting (seeding : Bool) (ps : List Parameter) (document : List Char) : Prop :=
  ∀ old ∈ ps, ∀ p ∈ extract seeding document, old.name = p.name → old.kind = p.kind →
    ({ p with value := old.value } : Parameter).Bounded

/-- The scalars of a document start within the standard range. -/
def Moderate (seeding : Bool) (document : List Char) : Prop :=
  ∀ p ∈ extract seeding document, p.kind = .scalar →
    ∃ x, p.default = .scalar x ∧ standardRange.Holds x

theorem moderate_plain (document : List Char) : Moderate false document := by
  intro p listed scalar
  refine ⟨half, ?_, by unfold Range.Holds; decide +kernel⟩
  rw [extract_plain listed, scalar]
  rfl

theorem extract_bounded (seeding : Bool) (document : List Char) :
    AllBounded (extract seeding document) := by
  intro p listed
  obtain ⟨ranged, same⟩ := extract_ranged listed
  have own : ({ p with value := p.default } : Parameter) = p := by
    cases p
    cases same
    rfl
  exact own ▸ ranged.bounded_default

theorem bounded_reconcile {seeding : Bool} {ps : List Parameter} (distinct : Distinct ps)
    (document : List Char) :
    AllBounded (reconcile ps (extract seeding document)) ↔ Fitting seeding ps document := by
  have carried : ∀ old ∈ ps, ∀ p : Parameter, old.name = p.name → old.kind = p.kind →
      carry ps p = { p with value := old.value } := by
    intro old listed p name kind
    exact carry_kept (name ▸ distinct.named listed) kind
  constructor
  · intro all old listed p declared name kind
    rw [← carried old listed p name kind]
    exact all _ (List.mem_map_of_mem declared)
  · intro fitting p' listed
    obtain ⟨p, declared, made⟩ := List.mem_map.mp listed
    have made' : p' = carry ps p := made.symm
    by_cases known : kindNamed ps p.name = some p.kind
    · obtain ⟨old, found, kind⟩ := Option.map_eq_some_iff.mp known
      have listed' : old ∈ ps := List.mem_of_find?_eq_some found
      rw [made', carried old listed' p (named_name found) kind]
      exact fitting old listed' p declared (named_name found) kind
    · rw [made', carry_new distinct known]
      exact extract_bounded seeding document p declared

theorem bounded_put {ps : List Parameter} (all : AllBounded ps) {i : Nat} {p : Parameter}
    (at_i : ps[i]? = some p) (p' : Parameter) : AllBounded (ps.set i p') ↔ p'.Bounded := by
  constructor
  · intro after
    obtain ⟨bound, _⟩ := List.getElem?_eq_some_iff.mp at_i
    exact after p' (List.mem_set bound p')
  · intro new q listed
    rcases List.mem_or_eq_of_mem_set listed with old | same
    · exact all q old
    · exact same ▸ new

end ShaderBench.Param

namespace ShaderBench.Control.Desk
open Param

theorem params_adjust (d : Desk) (direction : Direction) :
    (d.clampCursor.adjust direction).1.params = match d.selected with
      | none => d.params
      | some p => d.params.set d.clampCursor.cursor.index
          (p.stepped d.clampCursor.cursor.component direction) := by
  cases found : d.selected with
  | none =>
    have found' : d.clampCursor.cursor.selected d.clampCursor.params = none := found
    rw [adjust, found']
    rfl
  | some p =>
    have found' : d.clampCursor.cursor.selected d.clampCursor.params = some p := found
    rw [adjust, found']
    unfold Parameter.stepped
    cases moved : p.adjust d.clampCursor.cursor.component direction <;> (simp only [moved]; rfl)

theorem params_reset (d : Desk) :
    d.clampCursor.reset.1.params = match d.selected with
      | none => d.params
      | some p => d.params.set d.clampCursor.cursor.index p.reset := by
  cases found : d.selected with
  | none =>
    have found' : d.clampCursor.cursor.selected d.clampCursor.params = none := found
    rw [reset, found']
    rfl
  | some p =>
    have found' : d.clampCursor.cursor.selected d.clampCursor.params = some p := found
    rw [reset, found']
    rfl

theorem selected_home {d : Desk} {p : Parameter} {ps : List Parameter} (home : d.cursor = .home)
    (params : d.session.params = p :: ps) : d.selected = some p := by
  have first : (Cursor.home.clamp (p :: ps)).index = 0 := by
    unfold Cursor.clamp Cursor.home
    simp only [List.length_cons, Nat.zero_lt_succ, if_true]
    split <;> rfl
  rw [selected, clampCursor, Desk.params, home, params, Cursor.selected, first]
  rfl

end ShaderBench.Control.Desk

namespace ShaderBench.Editing
open Gpu Param Control Control.Desk Assistant Session
variable {translator : Translator} {seeding : Bool}

def Operation.offered : Operation → Bool
  | .setParam _ _ => false
  | _ => true

def Stands (d : Desk) (x : Single) : Prop :=
  ∃ p, d.selected = some p ∧ p.kind = .scalar ∧ p.value = .scalar x

/-- A step of a scalar away from the infinity that it is. -/
def Runaway (d : Desk) : Operation → Prop
  | .command .increase => Stands d Direction.up.behind
  | .command .decrease => Stands d Direction.down.behind
  | _ => False

/-- An operation takes no value over that does not fit, and no infinity is stepped away from. -/
structure Spares (translator : Translator) (seeding : Bool) (d : Desk) (o : Operation) : Prop where
  fitting : Fitting seeding d.session.params (step translator d o).session.documentChars
  steady : ¬Runaway d o

theorem Session.Coherent.extracted {s : Session} (coherent : Coherent translator seeding s)
    {p : Parameter} (listed : p ∈ s.params) :
    ∃ q ∈ extract seeding s.documentChars, q.unset = p.unset := by
  have here := List.mem_map_of_mem (f := Parameter.unset) listed
  rw [coherent.params] at here
  exact List.mem_map.mp here

theorem Session.Coherent.ranged {s : Session} (coherent : Coherent translator seeding s)
    {p : Parameter} (listed : p ∈ s.params) : p.Ranged := by
  obtain ⟨q, declared, same⟩ := coherent.extracted listed
  have ranged : q.unset.Ranged := (extract_ranged declared).1
  rw [same] at ranged
  exact ranged

theorem fitting_own {s : Session} (coherent : Coherent translator seeding s)
    (all : AllBounded s.params) : Fitting seeding s.params s.documentChars := by
  rw [← bounded_reconcile coherent.distinct, reconcile_own coherent.distinct coherent.params]
  exact all

theorem bounded_step {d : Desk} (coherent : Coherent translator seeding d.session)
    (all : AllBounded d.session.params) {o : Operation} (offered : o.offered) :
    AllBounded (step translator d o).session.params ↔ Spares translator seeding d o := by
  cases quiet : o.tunes with
  | false =>
    have steady : ¬Runaway d o := by
      unfold Runaway
      split
      · cases quiet
      · cases quiet
      · exact not_false
    rw [step_carries quiet coherent, bounded_reconcile coherent.distinct]
    exact ⟨fun fitting => ⟨fitting, steady⟩, Spares.fitting⟩
  | true =>
    -- A command that tunes leaves the document, so the values fit as before.
    have split : (step translator d o).session.document = d.session.document →
        (AllBounded (step translator d o).session.params ↔ ¬Runaway d o) →
        (AllBounded (step translator d o).session.params ↔ Spares translator seeding d o) := by
      intro document each
      have fitting := fitting_own coherent all
      rw [documentChars, ← document] at fitting
      exact each.trans ⟨fun steady => ⟨fitting, steady⟩, Spares.steady⟩
    have adjusted : ∀ direction : Direction,
        AllBounded (d.clampCursor.adjust direction).1.params ↔ ¬Stands d direction.behind := by
      intro direction
      rw [params_adjust]
      cases found : d.selected with
      | none =>
        refine iff_of_true all ?_
        rintro ⟨p, same, _⟩
        rw [found] at same
        cases same
      | some p =>
        have listed : p ∈ d.params := List.mem_of_getElem? found
        simp only [Stands, found, Option.some.injEq, exists_eq_left']
        refine (bounded_put all found _).trans ?_
        exact stepped_bounded (coherent.ranged listed) (all p listed) _ direction
    cases o with
    | setParam name v => cases offered
    | command c =>
      cases c with
      | increase => exact split (adjust_alike d.clampCursor .up).document (adjusted .up)
      | decrease => exact split (adjust_alike d.clampCursor .down).document (adjusted .down)
      | resetParam =>
        refine split (reset_alike d.clampCursor).document (iff_of_true ?_ not_false)
        change AllBounded d.clampCursor.reset.1.params
        rw [params_reset]
        cases found : d.selected with
        | none => exact all
        | some p =>
          have listed : p ∈ d.params := List.mem_of_getElem? found
          exact (bounded_put all found _).mpr (coherent.ranged listed).bounded_default
      | _ => cases quiet
    | _ => cases quiet

theorem bounded_iff {d : Desk} (coherent : Coherent translator seeding d.session)
    (first : AllBounded d.session.params) {os : List Operation} (offered : ∀ o ∈ os, o.offered) :
    (∀ front, front <+: os → AllBounded (deskAfter translator d front).session.params) ↔
      ∀ front o, front ++ [o] <+: os →
        Spares translator seeding (deskAfter translator d front) o := by
  have one : ∀ front o, front ++ [o] <+: os →
      AllBounded (deskAfter translator d front).session.params →
      (AllBounded (deskAfter translator d (front ++ [o])).session.params ↔
        Spares translator seeding (deskAfter translator d front) o) := by
    intro front o within all
    rw [deskAfter_concat]
    have listed : o ∈ front ++ [o] := List.mem_append_right front List.mem_cons_self
    exact bounded_step (deskAfter_coherent coherent front) all
      (offered o (within.subset listed))
  constructor
  · intro every front o within
    exact (one front o within (every front ((List.prefix_append _ _).trans within))).mp
      (every _ within)
  · -- By induction on what has happened so far, from its end.
    intro spared front
    induction front using List.reverseRecOn with
    | nil => exact fun _ => first
    | append_singleton front o ih =>
      intro within
      exact (one front o within (ih ((List.prefix_append _ _).trans within))).mpr
        (spared front o within)

theorem spares_moderate {d : Desk} (coherent : Coherent translator seeding d.session)
    (all : AllBounded d.session.params) {o : Operation}
    (before : Moderate seeding d.session.documentChars)
    (after : Moderate seeding (step translator d o).session.documentChars) :
    Spares translator seeding d o := by
  have within : ∀ p ∈ d.session.params, p.kind = .scalar →
      ∃ x, p.value = .scalar x ∧ standardRange.Holds x := by
    intro p listed scalar
    obtain ⟨q, declared, same⟩ := coherent.extracted listed
    simp only [Parameter.unset, Parameter.mk.injEq] at same
    obtain ⟨_, kind, _, default, range⟩ := same
    obtain ⟨x, start, holds⟩ := before q declared (kind.trans scalar)
    obtain ⟨y, _, start', widened⟩ := coherent.ranged listed scalar
    obtain ⟨r, z, range', value, holds'⟩ := all p listed scalar
    rw [← default, start] at start'
    cases start'
    rw [widened, widen_standard holds] at range'
    cases range'
    exact ⟨z, value, holds'⟩
  have bounds : ∀ direction : Direction, ¬standardRange.Holds direction.behind := by
    unfold Range.Holds
    intro direction
    cases direction <;> decide +kernel
  constructor
  · intro old listed p declared name kind scalar
    obtain ⟨x, value, holds⟩ := within old listed (kind.trans scalar)
    obtain ⟨y, start, holds'⟩ := after p declared scalar
    obtain ⟨y', _, start', widened⟩ := (extract_ranged declared).1 scalar
    rw [start] at start'
    cases start'
    rw [widen_standard holds'] at widened
    exact ⟨standardRange, x, widened, value, holds⟩
  · have steady : ∀ direction : Direction, ¬Stands d direction.behind := by
      rintro direction ⟨p, found, scalar, value⟩
      obtain ⟨x, value', holds⟩ := within p (List.mem_of_getElem? found) scalar
      rw [value] at value'
      cases value'
      exact bounds direction holds
    unfold Runaway
    split
    · exact steady .up
    · exact steady .down
    · exact not_false

/-- The scalars of a run stay in their ranges exactly if no operation lets a declaration take over a
    value that does not fit its range, and no scalar is stepped away from the infinity that it is.
    Where the scalars of all documents start within the standard range, as they do without seeding,
    neither happens. -/
theorem scalars_bounded_iff (translator : Translator) (document : String)
    (settings : Settings.Editor) (cursor : Cursor) (os : List Operation)
    (offered : ∀ o ∈ os, o.offered) :
    let desk := deskAfter translator ⟨.start translator document settings, cursor⟩
    (∀ front, ∀ p ∈ (desk front).session.params, p.unset.Bounded) ∧
      ((∀ front, front <+: os → AllBounded (desk front).session.params) ↔
        ∀ front o, front ++ [o] <+: os → Spares translator settings.seeding (desk front) o) ∧
      (settings.seeding = false ∨ (∀ front, front <+: os →
          Moderate settings.seeding (desk front).session.documentChars) →
        ∀ front, front <+: os → AllBounded (desk front).session.params) := by
  intro desk
  have coherent : ∀ front, Coherent translator settings.seeding (desk front).session :=
    deskAfter_coherent (start_coherent document settings)
  have first : AllBounded (Session.start translator document settings).params := by
    rw [start_params]
    exact extract_bounded _ _
  refine ⟨fun front p listed => ((coherent front).ranged listed).bounded_default,
    bounded_iff (start_coherent document settings) first offered, ?_⟩
  intro plain
  have moderate : ∀ front, front <+: os →
      Moderate settings.seeding (desk front).session.documentChars := by
    rcases plain with off | moderate
    · intro front _
      exact off ▸ moderate_plain _
    · exact moderate
  intro front
  induction front using List.reverseRecOn with
  | nil => exact fun _ => first
  | append_singleton front o ih =>
    intro within
    have within' := (List.prefix_append front [o]).trans within
    have after := moderate _ within
    have listed : o ∈ front ++ [o] := List.mem_append_right front List.mem_cons_self
    have same : desk (front ++ [o]) = step translator (desk front) o := deskAfter_concat _ front o
    rw [same] at after ⊢
    exact (bounded_step (coherent front) (ih within') (offered o (within.subset listed))).mpr
      (spares_moderate (coherent front) (ih within') (moderate front within') after)

theorem gain_stays_in_range :
    let os := [.command .increase, .edit "uniform float gain = 9.0;\n" 0, .command .decrease,
      .command .undo, .command .resetParam]
    let d : Desk := ⟨.start (fun _ => .invalid "") "uniform float gain;" ⟨100, 750, false, true⟩,
      .home⟩
    (∀ o ∈ os, o.offered) ∧
      ∀ front, front <+: os → AllBounded (deskAfter (fun _ => .invalid "") d front).session.params := by
  intro os d
  have offered : ∀ o ∈ os, o.offered := by decide +kernel
  exact ⟨offered, (scalars_bounded_iff _ _ ⟨100, 750, false, true⟩ .home os offered).2.2 (.inl rfl)⟩

theorem gain_out_of_range :
    let d : String → Desk := fun document =>
      ⟨.start (fun _ => .invalid "") document ⟨100, 750, true, true⟩, .home⟩
    ¬AllBounded (deskAfter (fun _ => .invalid "") (d "uniform float gain = 8.0;\n")
        [.edit "uniform float gain;\n" 0]).session.params ∧
      ¬AllBounded (deskAfter (fun _ => .invalid "") (d "uniform float gain = 1e40;\n")
        [.command .decrease]).session.params := by
  intro d
  have first : ∀ document, (d document).session.params = extract true document.toList :=
    fun document => start_params document _
  have bounded : ∀ document, AllBounded (d document).session.params := by
    intro document
    rw [first]
    exact extract_bounded true _
  have spares : ∀ document o, o.offered →
      AllBounded (deskAfter (fun _ => .invalid "") (d document) [o]).session.params →
      Spares (fun _ => .invalid "") true (d document) o := by
    intro document o offered all
    have coherent : Coherent (fun _ => .invalid "") true (d document).session :=
      start_coherent document ⟨100, 750, true, true⟩
    exact (bounded_step coherent (bounded document) offered).mp all
  constructor
  · intro all
    have fitting := (spares _ _ rfl all).fitting
    rw [documentChars, step_edit, first] at fitting
    obtain ⟨r, x, range, value, holds⟩ := fitting
      ⟨"gain", .scalar, .scalar (.ofNat 8), .scalar (.ofNat 8), some ⟨.zero, .ofNat 8⟩⟩
      (by decide +kernel) ⟨"gain", .scalar, .scalar half, .scalar half, some standardRange⟩
      (by decide +kernel) rfl rfl rfl
    cases range
    cases value
    exact absurd holds.2 (by decide +kernel)
  · intro all
    apply (spares _ _ rfl all).steady
    have only : extract true "uniform float gain = 1e40;\n".toList =
        [⟨"gain", .scalar, .scalar .infinity, .scalar .infinity, some ⟨.zero, .infinity⟩⟩] := by
      decide +kernel
    exact ⟨_, selected_home rfl ((first _).trans only), rfl, rfl⟩

end ShaderBench.Editing
