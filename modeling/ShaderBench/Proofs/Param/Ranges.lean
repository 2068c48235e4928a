import ShaderBench.Proofs.Editing.Coherence
import ShaderBench.Proofs.Number.Order
import ShaderBench.Proofs.Param.Extraction
/-
Scalars and their ranges: which range a declaration gives to a scalar, and what a step or a reset
does to a value that lies in it.
-/
namespace ShaderBench.Param
open Shader Number

def Range.Holds (r : Range) (x : Single) : Prop := r.low.le x ∧ x.le r.high

def Parameter.Bounded (p : Parameter) : Prop :=
  p.kind = .scalar → ∃ r x, p.range = some r ∧ p.value = .scalar x ∧ r.Holds x

def standardRange : Range := ⟨.zero, .ofNat 5⟩

/-- A scalar has the standard range, widened to hold the number that is its default. -/
def Parameter.Ranged (p : Parameter) : Prop :=
  p.kind = .scalar →
    ∃ x : Single, x.isNaN = false ∧ p.default = .scalar x ∧ p.range = some (standardRange.widen x)

def Range.Wide (r : Range) : Prop := r.low.le standardRange.low ∧ standardRange.high.le r.high

theorem Range.Wide.ordered {r : Range} (wide : r.Wide) : r.low.le r.high :=
  Single.le_trans wide.1 (Single.le_trans (by decide +kernel) wide.2)

theorem Range.widen_holds {r : Range} (low : r.low.isNaN = false) (high : r.high.isNaN = false)
    {x : Single} (number : x.isNaN = false) : (r.widen x).Holds x :=
  ⟨(Single.min_le low number).2, (Single.le_max high number).2⟩

theorem standard_wide {x : Single} (number : x.isNaN = false) : (standardRange.widen x).Wide :=
  ⟨(Single.min_le (by decide) number).1, (Single.le_max (by decide) number).1⟩

theorem widen_standard {x : Single} (within : standardRange.Holds x) :
    standardRange.widen x = standardRange := by
  obtain ⟨_, number, least⟩ := Single.le_iff.mp within.1
  obtain ⟨_, _, most⟩ := Single.le_iff.mp within.2
  have low : x.lt standardRange.low ≠ true := fun less =>
    absurd (Single.lt_iff.mp less).2.2 (Int.not_lt.mpr least)
  have high : standardRange.high.lt x ≠ true := fun less =>
    absurd (Single.lt_iff.mp less).2.2 (Int.not_lt.mpr most)
  have low' : standardRange.low.isNaN = false := by decide
  have high' : standardRange.high.isNaN = false := by decide +kernel
  simp only [Range.widen, Single.min, Single.max, low', high', low, high, if_false,
    Bool.false_eq_true]

section Extraction

theorem isNaN_numberOf? {text : List Char} {x : Single} (read : numberOf? text = some x) :
    x.isNaN = false :=
  Single.isNaN_read? read

theorem isNaN_numbersFrom {e : Expecting} {ts : List Token} {xs : List Single}
    (read : numbersFrom e ts = some xs) : ∀ x ∈ xs, x.isNaN = false := by
  induction ts generalizing e xs with
  | nil =>
    cases e with
    | comma =>
      cases read
      nofun
    | number negative => cases read
  | cons t ts ih =>
    cases e with
    | comma =>
      unfold numbersFrom at read
      split at read
      · exact ih read
      · cases read
    | number negative =>
      unfold numbersFrom at read
      split at read
      · exact ih read
      · split at read
        · exact ih read
        · split at read
          · obtain ⟨x, first, read⟩ := Option.bind_eq_some_iff.mp read
            obtain ⟨rest, later, made⟩ := Option.bind_eq_some_iff.mp read
            cases made
            intro y listed
            rcases List.mem_cons.mp listed with here | there
            · subst here
              split
              · exact (Single.isNaN_neg x).trans (isNaN_numberOf? first)
              · exact isNaN_numberOf? first
            · exact ih later y there
          · cases read

theorem ofNumbers?_scalar {xs : List Single} {v : Value}
    (made : Kind.scalar.ofNumbers? xs = some v) : ∃ x, v = .scalar x ∧ x ∈ xs := by
  match xs, made with
  | [x], made =>
    cases made
    exact ⟨x, rfl, List.mem_cons_self⟩

theorem literal?_scalar {initializer : List Char} {v : Value}
    (read : literal? .scalar initializer = some v) : ∃ x, v = .scalar x ∧ x.isNaN = false := by
  obtain ⟨first, _, read⟩ := Option.bind_eq_some_iff.mp read
  extract_lets finish at read
  split at read
  · obtain ⟨type, _, read⟩ := Option.bind_eq_some_iff.mp read
    obtain ⟨inside, _, read⟩ := Option.bind_eq_some_iff.mp read
    cases type <;> simp [constructs] at read
  · obtain ⟨xs, numbers, made⟩ := Option.bind_eq_some_iff.mp read
    obtain ⟨x, same, listed⟩ := ofNumbers?_scalar made
    exact ⟨x, same, isNaN_numbersFrom numbers x listed⟩

theorem ranged_ofKind (name : String) (kind : Kind) : (Parameter.ofKind name kind).Ranged := by
  intro scalar
  have scalar' : kind = .scalar := scalar
  subst scalar'
  have range : some standardRange = some (standardRange.widen half) := by decide +kernel
  exact ⟨half, by decide +kernel, rfl, range⟩

theorem seed_ranged {name : String} {kind : Kind} {v : Value}
    (read : kind = .scalar → ∃ x, v = .scalar x ∧ x.isNaN = false) :
    ((Parameter.ofKind name kind).seed v).Ranged := by
  unfold Parameter.seed
  split
  · intro scalar
    obtain ⟨x, same, number⟩ := read scalar
    have scalar' : kind = .scalar := scalar
    subst same scalar'
    exact ⟨x, number, rfl, rfl⟩
  · exact ranged_ofKind name kind

theorem seed_default (p : Parameter) (v : Value) (same : p.value = p.default) :
    (p.seed v).value = (p.seed v).default := by
  unfold Parameter.seed
  split
  · rfl
  · exact same

theorem ofDeclaration?_cases {seeding : Bool} {d : Declaration} {p : Parameter}
    (made : ofDeclaration? seeding d = some p) :
    ∃ kind, p = Parameter.ofKind d.name kind ∨
      seeding = true ∧ ∃ initializer v, literal? kind initializer = some v ∧
        p = (Parameter.ofKind d.name kind).seed v := by
  unfold ofDeclaration? at made
  simp only [Option.bind_eq_bind] at made
  split at made
  · cases made
  · obtain ⟨type, _, made⟩ := Option.bind_eq_some_iff.mp made
    obtain ⟨kind, _, made⟩ := Option.bind_eq_some_iff.mp made
    refine ⟨kind, ?_⟩
    cases found : d.initializer.bind (literal? kind) with
    | none =>
      rw [found] at made
      cases seeding <;> (cases made; exact .inl rfl)
    | some v =>
      rw [found] at made
      cases seeding with
      | false => cases made; exact .inl rfl
      | true =>
        cases made
        obtain ⟨initializer, _, read⟩ := Option.bind_eq_some_iff.mp found
        exact .inr ⟨rfl, initializer, v, read, rfl⟩

/-- What a document declares has been made from one of its declarations. -/
theorem extract_made {seeding : Bool} {document : List Char} {p : Parameter}
    (listed : p ∈ extract seeding document) : ∃ d, ofDeclaration? seeding d = some p := by
  have last := lastNamed_listed ((mem_extract seeding document p).mp listed)
  obtain ⟨q, made, same⟩ := List.mem_map.mp last
  have same' : q = p := (Prod.mk.inj same).2
  obtain ⟨d, _, made⟩ := List.mem_filterMap.mp made
  exact ⟨d, same' ▸ made⟩

theorem extract_ranged {seeding : Bool} {document : List Char} {p : Parameter}
    (listed : p ∈ extract seeding document) : p.Ranged ∧ p.value = p.default := by
  obtain ⟨d, made⟩ := extract_made listed
  obtain ⟨kind, plain | ⟨_, initializer, v, read, seeded⟩⟩ := ofDeclaration?_cases made
  · exact plain ▸ ⟨ranged_ofKind d.name kind, rfl⟩
  · subst seeded
    refine ⟨seed_ranged fun scalar => ?_, seed_default _ v rfl⟩
    rw [scalar] at read
    exact literal?_scalar read

theorem extract_plain {document : List Char} {p : Parameter} (listed : p ∈ extract false document) :
    p.default = p.kind.defaultValue := by
  obtain ⟨d, made⟩ := extract_made listed
  obtain ⟨kind, plain | ⟨seeding, _⟩⟩ := ofDeclaration?_cases made
  · rw [plain]
    rfl
  · cases seeding

end Extraction

section Step
variable {p : Parameter}

theorem Parameter.Ranged.unset (same : p.unset.Ranged) : p.Ranged := same

theorem Parameter.Ranged.bounded_default (ranged : p.Ranged) :
    ({ p with value := p.default } : Parameter).Bounded := by
  intro scalar
  obtain ⟨x, number, default, range⟩ := ranged scalar
  exact ⟨_, x, range, default, Range.widen_holds (by decide) (by decide +kernel) number⟩

def Parameter.stepped (p : Parameter) (component : Nat) (d : Direction) : Parameter :=
  match p.adjust component d with
  | .changed p' => p'
  | .unchanged | .badRange => p

/-- The infinity that steps in a direction lead away from. -/
def Direction.behind : Direction → Single
  | .up => -Single.infinity
  | .down => Single.infinity

def Range.step (r : Range) : Single := (r.high - r.low) * scalarShare

theorem Range.Wide.width {r : Range} (wide : r.Wide) :
    (r.high - r.low).isNaN = false ∧ (r.high - r.low).isNegative = false ∧
      (r.high.isInfinite ∨ r.low.isInfinite → (r.high - r.low).isInfinite) := by
  obtain ⟨low, _, below⟩ := Single.le_iff.mp wide.1
  obtain ⟨_, high, above⟩ := Single.le_iff.mp wide.2
  have zero : standardRange.low.rank = 0 := by decide
  have five : 0 < standardRange.high.rank := by decide +kernel
  exact Single.sub_around_zero high low (by omega) (by omega)

theorem Range.Wide.step {r : Range} (wide : r.Wide) :
    r.step.isNaN = false ∧ r.step.isNegative = false ∧
      (r.high.isInfinite ∨ r.low.isInfinite → r.step.isInfinite) := by
  obtain ⟨number, sign, infinite⟩ := wide.width
  obtain ⟨number', sign', infinite'⟩ := Single.mul_factor number (y := scalarShare)
    (by decide +kernel) (by decide +kernel) (by decide +kernel) (by decide +kernel)
  exact ⟨number', sign'.trans sign, fun ends => infinite' (infinite ends)⟩

/-- A step leads to no number exactly from the infinity behind it. -/
theorem Range.Wide.moved_isNaN {r : Range} (wide : r.Wide) {x : Single} (holds : r.Holds x)
    (d : Direction) : (x + d.apply r.step).isNaN ↔ x = d.behind := by
  obtain ⟨number, positive, infinite⟩ := wide.step
  have number' : x.isNaN = false := (Single.le_iff.mp holds.1).2.1
  have step : (d.apply r.step).isNaN = false ∧ (d.apply r.step).isInfinite = r.step.isInfinite ∧
      (d.apply r.step).isNegative = (d == .down) := by
    cases d with
    | up => exact ⟨number, rfl, positive⟩
    | down =>
      refine ⟨(Single.isNaN_neg _).trans number, Single.isInfinite_neg _, ?_⟩
      exact (Single.isNegative_neg _).trans (by rw [positive]; rfl)
  rw [Single.isNaN_add, number', step.1, step.2.1, step.2.2]
  constructor
  · intro nan
    simp only [Bool.false_or, Bool.and_eq_true, bne_iff_ne] at nan
    have which := Single.infinite_cases nan.1.1
    cases d with
    | up =>
      have negative : x.isNegative = true := Bool.of_not_eq_false nan.2
      rwa [negative] at which
    | down =>
      have negative : x.isNegative = false := Bool.of_not_eq_true nan.2
      rwa [negative] at which
  · intro behind
    have ends : x.isInfinite ∧ r.step.isInfinite ∧ (x.isNegative != (d == .down)) := by
      cases d with
      | up =>
        subst behind
        exact ⟨by decide, infinite (.inr (Single.infinite_beyond (.inr holds.1))), by decide⟩
      | down =>
        subst behind
        exact ⟨by decide, infinite (.inl (Single.infinite_beyond (.inl holds.2))), by decide⟩
    simp [ends.1, ends.2.1, ends.2.2]

theorem stepped_unset (p : Parameter) (component : Nat) (d : Direction) :
    (p.stepped component d).unset = p.unset := by
  unfold Parameter.stepped
  split
  · rename_i p' moved
    exact adjust_unset moved
  · rfl
  · rfl

theorem stepped_kind (p : Parameter) (component : Nat) (d : Direction) :
    (p.stepped component d).kind = p.kind := by
  have same := stepped_unset p component d
  simp only [Parameter.unset, Parameter.mk.injEq] at same
  exact same.2.1

theorem stepped_scalar {r : Range} {x y : Single} (scalar : p.kind = .scalar)
    (range : p.range = some r) (value : p.value = .scalar x) (component : Nat) {d : Direction}
    (moved : (x + d.apply r.step).clamp? r.low r.high = some y) :
    p.stepped component d = if y.same x then p else { p with value := .scalar y } := by
  have next : nextValue? p component d = some (some (.scalar y)) := by
    unfold nextValue?
    simp only [scalar, value, range, Option.getD_some]
    exact congrArg (fun y => some (y.map Value.scalar)) moved
  unfold Parameter.stepped Parameter.adjust
  simp only [next, value, Value.same]
  by_cases same : y.same x
  · simp only [same, if_true]
  · simp only [same, if_false, Bool.false_eq_true]

/-- A step keeps a scalar in its range, but for the infinity that the step leads away from. -/
theorem stepped_bounded (ranged : p.Ranged) (bounded : p.Bounded) (component : Nat)
    (d : Direction) :
    (p.stepped component d).Bounded ↔ ¬(p.kind = .scalar ∧ p.value = .scalar d.behind) := by
  by_cases scalar : p.kind = .scalar
  · obtain ⟨r, x, range, value, holds⟩ := bounded scalar
    obtain ⟨seed, number, _, range'⟩ := ranged scalar
    have wide : r.Wide := by
      rw [range] at range'
      cases range'
      exact standard_wide number
    have same : p.value = .scalar d.behind ↔ x = d.behind := by rw [value, Value.scalar.injEq]
    rw [same, and_iff_right scalar, ← wide.moved_isNaN holds d]
    by_cases nan : (x + d.apply r.step).isNaN
    · have moved := Single.clamp?_nan wide.ordered nan
      have other : (x + d.apply r.step).same x = false := by simp [Single.same, nan]
      rw [stepped_scalar scalar range value component moved, other]
      refine iff_of_false ?_ (not_not_intro nan)
      intro after
      obtain ⟨r', y, _, value', holds'⟩ := after scalar
      cases value'
      exact absurd nan (by simp [(Single.le_iff.mp holds'.1).2.1])
    · obtain ⟨y, moved, between⟩ := Single.clamp?_between wide.ordered (Bool.eq_false_iff.mpr nan)
      rw [stepped_scalar scalar range value component moved]
      refine iff_of_true ?_ nan
      split
      · exact bounded
      · exact fun _ => ⟨r, y, range, rfl, between⟩
  · refine iff_of_true ?_ fun both => scalar both.1
    intro scalar'
    exact absurd ((stepped_kind p component d).symm.trans scalar') scalar

end Step
end ShaderBench.Param
