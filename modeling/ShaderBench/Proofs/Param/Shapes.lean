import ShaderBench.Proofs.Param.Ranges
/-
The form of parameters: values have the shape of their kind, scalars and only they have a range, and
it holds the default. Every step of such a parameter has a value to go to.
-/
namespace ShaderBench.Param
open Shader

structure Parameter.WellFormed (p : Parameter) : Prop where
  value : p.value.fits p.kind
  default : p.default.fits p.kind
  ranged : p.range.isSome ↔ p.kind = .scalar
  ordered : ∀ r, p.range = some r → r.low.isNaN = false ∧ r.high.isNaN = false ∧ r.low.le r.high
  holds : ∀ r, p.range = some r → ∃ x, p.default = .scalar x ∧ r.Holds x

def AllFit (ps : List Parameter) : Prop := ∀ p ∈ ps, p.value.fits p.kind

section Declared

theorem defaultValue_fits (kind : Kind) : kind.defaultValue.fits kind := by
  cases kind <;> rfl

theorem defaultRange_isSome (kind : Kind) : kind.defaultRange.isSome ↔ kind = .scalar := by
  cases kind <;> decide

theorem seed_known (p : Parameter) (v : Value) :
    (p.seed v).kind = p.kind ∧ (p.seed v).range.isSome = p.range.isSome := by
  unfold Parameter.seed
  split
  · refine ⟨rfl, ?_⟩
    dsimp only
    split
    · rename_i range _
      rw [range]
      rfl
    · rfl
  · exact ⟨rfl, rfl⟩

theorem seed_fits {p : Parameter} (fits : p.default.fits p.kind) (v : Value) :
    (p.seed v).default.fits (p.seed v).kind := by
  unfold Parameter.seed
  split
  · assumption
  · exact fits

theorem ofDeclaration?_shaped {seeding : Bool} {d : Declaration} {p : Parameter}
    (made : ofDeclaration? seeding d = some p) :
    p.default.fits p.kind ∧ (p.range.isSome ↔ p.kind = .scalar) := by
  obtain ⟨kind, plain | ⟨_, initializer, v, _, seeded⟩⟩ := ofDeclaration?_cases made
  · rw [plain]
    exact ⟨defaultValue_fits kind, defaultRange_isSome kind⟩
  · obtain ⟨kind', range⟩ := seed_known (.ofKind d.name kind) v
    rw [seeded]
    constructor
    · exact seed_fits (defaultValue_fits kind) v
    · rw [kind', range]
      exact defaultRange_isSome kind

theorem extract_wellFormed {seeding : Bool} {document : List Char} {p : Parameter}
    (listed : p ∈ extract seeding document) : p.WellFormed := by
  obtain ⟨known, same⟩ := extract_ranged listed
  obtain ⟨d, made⟩ := extract_made listed
  have shape := ofDeclaration?_shaped made
  have bounds : ∀ r, p.range = some r → ∃ x : Single,
      x.isNaN = false ∧ p.default = .scalar x ∧ r = standardRange.widen x := by
    intro r range
    obtain ⟨x, number, default, range'⟩ := known (shape.2.mp (range ▸ rfl))
    rw [range] at range'
    exact ⟨x, number, default, Option.some.inj range'⟩
  constructor
  · exact same ▸ shape.1
  · exact shape.1
  · exact shape.2
  · intro r range
    obtain ⟨x, number, _, widened⟩ := bounds r range
    have order : r.low.le r.high := widened ▸ (standard_wide number).ordered
    exact ⟨(Single.le_iff.mp order).1, (Single.le_iff.mp order).2.1, order⟩
  · intro r range
    obtain ⟨x, number, default, widened⟩ := bounds r range
    exact ⟨x, default, widened ▸ Range.widen_holds (by decide) (by decide +kernel) number⟩

theorem wellFormed_of_unset {p : Parameter} (declared : p.unset.WellFormed)
    (fits : p.value.fits p.kind) : p.WellFormed :=
  ⟨fits, declared.default, declared.ranged, declared.ordered, declared.holds⟩

end Declared

section Step

theorem clamp?_isSome {lo hi : Single} (order : lo.le hi) (x : Single) :
    (x.clamp? lo hi).isSome := by
  rw [Single.clamp?, if_pos order]
  rfl

theorem Parameter.WellFormed.nextValue? {p : Parameter} (formed : p.WellFormed) (component : Nat)
    (d : Direction) : ∃ v, nextValue? p component d = some (some v) ∧ v.fits p.kind := by
  obtain ⟨name, kind, value, default, range⟩ := p
  have fits : value.fits kind := formed.value
  cases kind <;> cases value <;> try cases fits
  case scalar.scalar x =>
    obtain ⟨r, known⟩ := Option.isSome_iff_exists.mp (formed.ranged.mpr rfl)
    have range' : range = some r := known
    obtain ⟨_, _, order⟩ := formed.ordered r known
    obtain ⟨y, moved⟩ := Option.isSome_iff_exists.mp
      (clamp?_isSome order (x + d.apply ((r.high - r.low) * scalarShare)))
    refine ⟨.scalar y, ?_, rfl⟩
    simp only [Param.nextValue?, range', Option.getD_some, moved, Option.map_some]
  all_goals exact ⟨_, rfl, rfl⟩

theorem stepped_fits {p : Parameter} (formed : p.WellFormed) (component : Nat) (d : Direction) :
    (p.stepped component d).value.fits (p.stepped component d).kind := by
  obtain ⟨v, next, fits⟩ := formed.nextValue? component d
  unfold Parameter.stepped Parameter.adjust
  rw [next]
  dsimp only
  by_cases same : v.same p.value
  · rw [if_pos same]
    exact formed.value
  · rw [if_neg same]
    exact fits

theorem stepComponent_color (d : Direction) (x : Single) :
    (x + d.apply vectorStep).clamp? .zero (.ofNat 1) = some (stepComponent .color d x) := by
  have order : Single.zero.le (.ofNat 1) := by decide +kernel
  obtain ⟨y, moved⟩ := Option.isSome_iff_exists.mp (clamp?_isSome order (x + d.apply vectorStep))
  simp only [stepComponent, if_true, moved, Option.getD_some]

end Step

section Lists
variable {ps : List Parameter}

theorem fit_extract (seeding : Bool) (document : List Char) : AllFit (extract seeding document) :=
  fun _ listed => (extract_wellFormed listed).value

theorem fit_reconcile (fit : AllFit ps) {extracted : List Parameter} (fit' : AllFit extracted) :
    AllFit (reconcile ps extracted) := by
  intro p listed
  obtain ⟨q, declared, made⟩ := List.mem_map.mp listed
  split at made
  · rename_i old found
    have kind : old.kind = q.kind := by
      have both := List.find?_some found
      simp only [Bool.and_eq_true, decide_eq_true_eq] at both
      exact both.2
    subst made
    dsimp only
    rw [← kind]
    exact fit old (List.mem_of_find?_eq_some found)
  · exact made ▸ fit' q declared

theorem fit_setNamed (fit : AllFit ps) {name : String} {v : Value} {ps' : List Parameter}
    (done : setNamed name v ps = .ok ps') : AllFit ps' := by
  induction ps generalizing ps' with
  | nil => cases done
  | cons p ps ih =>
    obtain ⟨first, rest⟩ := List.forall_mem_cons.mp fit
    unfold setNamed at done
    split at done
    · unfold Parameter.set at done
      split at done
      · cases done
        exact List.forall_mem_cons.mpr ⟨by assumption, rest⟩
      · cases done
    · cases later : setNamed name v ps with
      | ok ps'' =>
        rw [later] at done
        cases done
        exact List.forall_mem_cons.mpr ⟨first, ih rest later⟩
      | error e =>
        rw [later] at done
        cases done

theorem fit_put (fit : AllFit ps) (i : Nat) {p : Parameter} (fits : p.value.fits p.kind) :
    AllFit (ps.set i p) := by
  intro q listed
  rcases List.mem_or_eq_of_mem_set listed with old | same
  · exact fit q old
  · exact same ▸ fits

end Lists
end ShaderBench.Param
