import ShaderBench.Proofs.Text.Runs
import ShaderBench.Shader.ZeroInit
/-
The parts of a declaration with a zero initializer. A text begins with such a declaration in one
way only, and none begins inside another one.
-/
namespace ShaderBench.Shader
open Text

theorem blankRanges_low : blankRanges.all fun b => b.2.blt 33 || Nat.ble 128 b.1 := by decide

theorem isAsciiWord_low : ∀ code < 33, ¬ isAsciiWord (Char.ofNat code) := by decide

theorem blankRanges_apart :
    blankRanges.all fun b => wordRanges.all fun w => w.2.blt b.1 || b.2.blt w.1 := by
  decide +kernel

theorem isWord_of_blank {c : Char} (blank : isBlank c) : isWord c = false := by
  obtain ⟨b, listed, within⟩ := List.any_eq_true.mp blank
  simp only [Bool.and_eq_true, decide_eq_true_eq] at within
  rw [isWord]
  split
  · have low := List.all_eq_true.mp blankRanges_low b listed
    simp only [Bool.or_eq_true, Nat.blt_eq, Nat.ble_eq] at low
    have other := isAsciiWord_low c.toNat (by omega)
    rw [Char.ofNat_toNat] at other
    simpa using other
  · by_contra word
    simp only [Bool.not_eq_false] at word
    obtain ⟨w, listed', within'⟩ := List.any_eq_true.mp word
    simp only [Bool.and_eq_true, decide_eq_true_eq] at within'
    have apart := List.all_eq_true.mp (List.all_eq_true.mp blankRanges_apart b listed) w listed'
    simp only [Bool.or_eq_true, Nat.blt_eq] at apart
    omega

theorem afterExactly?_some {word s rest : List Char} :
    afterExactly? word s = some rest ↔ s = word ++ rest := by
  induction word generalizing s with
  | nil => simp [afterExactly?]
  | cons w word ih =>
    cases s with
    | nil => simp [afterExactly?]
    | cons c s =>
      by_cases same : w = c
      · simp [afterExactly?, same, ih]
      · simp [afterExactly?, same, Ne.symm same]

theorem some1?_some {p : Char → Bool} {s found rest : List Char} :
    some1? p s = some (found, rest) ↔
      s = found ++ rest ∧ found ≠ [] ∧ (∀ c ∈ found, p c) ∧ ∀ c ∈ rest.head?, p c = false := by
  constructor
  · intro made
    unfold some1? at made
    split at made
    · cases made
    · rename_i some taken
      cases made
      exact ⟨List.takeWhile_append_dropWhile.symm, taken, takeWhile_all p s, dropWhile_stops p s⟩
  · rintro ⟨text, nonempty, all, stops⟩
    subst text
    unfold some1?
    rw [takeWhile_append_stop all stops, dropWhile_append_stop all stops]
    cases found with
    | nil => exact absurd rfl nonempty
    | cons c found => rfl

theorem afterMark?_past {mark : Char} {blanks : List Char} (solid : isBlank mark = false)
    (all : ∀ c ∈ blanks, isBlank c) (rest : List Char) :
    afterMark? mark (blanks ++ mark :: rest) = some rest := by
  have stops : ∀ c ∈ (mark :: rest).head?, isBlank c = false := by
    intro c first
    cases first
    exact solid
  rw [afterMark?, dropWhile_append_stop all stops]
  exact if_pos rfl

theorem afterMark?_some {mark : Char} {s rest : List Char} (solid : isBlank mark = false) :
    afterMark? mark s = some rest ↔
      ∃ blanks, (∀ c ∈ blanks, isBlank c) ∧ s = blanks ++ mark :: rest := by
  constructor
  · intro made
    unfold afterMark? at made
    split at made
    · rename_i c after dropped
      split at made
      · rename_i same
        cases made
        subst same
        refine ⟨s.takeWhile isBlank, takeWhile_all isBlank s, ?_⟩
        rw [← dropped, List.takeWhile_append_dropWhile]
      · cases made
    · cases made
  · rintro ⟨blanks, all, text⟩
    rw [text]
    exact afterMark?_past solid all rest

@[grind =] def FloatShape.sizes : FloatShape → List (List Char)
  | .scalar => [[]]
  | .vector => [['2'], ['3'], ['4']]

theorem FloatShape.size?_some {shape : FloatShape} {s size rest : List Char} :
    shape.size? s = some (size, rest) ↔ size ∈ shape.sizes ∧ s = size ++ rest := by
  cases shape with
  | scalar =>
    simp only [FloatShape.size?, FloatShape.sizes, Option.some.injEq, Prod.mk.injEq,
      List.mem_singleton]
    constructor
    · rintro ⟨none, same⟩
      exact ⟨none.symm, by rw [← none, same]; rfl⟩
    · rintro ⟨none, same⟩
      subst none
      exact ⟨rfl, same⟩
  | vector =>
    cases s with
    | nil =>
      constructor
      · intro made
        cases made
      · rintro ⟨listed, text⟩
        have none := (List.append_eq_nil_iff.mp text.symm).1
        subst none
        cases listed with
        | tail _ listed => cases listed with
          | tail _ listed => cases listed with
            | tail _ listed => cases listed
    | cons c s =>
      simp only [FloatShape.size?, FloatShape.sizes]
      constructor
      · intro made
        split at made
        · rename_i digit
          cases made
          simp only [Bool.or_eq_true, decide_eq_true_eq] at digit
          refine ⟨?_, rfl⟩
          rcases digit with (two | three) | four
          · simp [two]
          · simp [three]
          · simp [four]
        · cases made
      · rintro ⟨listed, text⟩
        simp only [List.mem_cons, List.not_mem_nil, or_false] at listed
        rcases listed with two | three | four
        · subst two
          cases text
          rfl
        · subst three
          cases text
          rfl
        · subst four
          cases text
          rfl

/-- A declaration with a zero initializer: the size in its type, its name, and the blanks between
    its parts. -/
structure ZeroForm (shape : FloatShape) where
  size : List Char
  gap : List Char
  name : List Char
  beforeMark : List Char
  beforeZero : List Char
  beforeEnd : List Char
  sized : size ∈ shape.sizes
  apart : gap ≠ []
  gap_blank : ∀ c ∈ gap, isBlank c
  named : name ≠ []
  name_word : ∀ c ∈ name, isWord c
  mark_blank : ∀ c ∈ beforeMark, isBlank c
  zero_blank : ∀ c ∈ beforeZero, isBlank c
  end_blank : ∀ c ∈ beforeEnd, isBlank c

namespace ZeroForm
variable {shape : FloatShape}

@[grind =] def type (z : ZeroForm shape) : List Char := "float".toList ++ z.size

@[grind =] def tail (z : ZeroForm shape) : List Char :=
  z.beforeMark ++ '=' :: (z.beforeZero ++ '0' :: (z.beforeEnd ++ [';']))

@[grind =] def old (z : ZeroForm shape) : List Char := z.type ++ z.gap ++ z.name ++ z.tail

@[grind =] def new (z : ZeroForm shape) : List Char :=
  z.type ++ ' ' :: (z.name ++ " = ".toList ++ shape.zero z.type ++ [';'])

end ZeroForm

theorem zeroNamed?_some {s name rest : List Char} :
    zeroNamed? s = some (name, rest) ↔
      ∃ gap beforeMark beforeZero beforeEnd, gap ≠ [] ∧ (∀ c ∈ gap, isBlank c) ∧ name ≠ [] ∧
        (∀ c ∈ name, isWord c) ∧ (∀ c ∈ beforeMark, isBlank c) ∧ (∀ c ∈ beforeZero, isBlank c) ∧
        (∀ c ∈ beforeEnd, isBlank c) ∧
        s = gap ++ (name ++ (beforeMark ++ '=' :: (beforeZero ++ '0' :: (beforeEnd ++ ';' :: rest)))) := by
  have mark : isBlank '=' = false := by decide
  have zero : isBlank '0' = false := by decide
  have ending : isBlank ';' = false := by decide
  constructor
  · intro made
    simp only [zeroNamed?, bind, Option.bind_eq_some_iff, Prod.exists, Option.some.injEq,
      Prod.mk.injEq] at made
    obtain ⟨gap, s₁, h₁, word, s₂, h₂, s₃, h₃, s₄, h₄, s₅, h₅, same, same'⟩ := made
    subst same same'
    obtain ⟨t₁, apart, blank, _⟩ := some1?_some.mp h₁
    obtain ⟨t₂, named, letters, _⟩ := some1?_some.mp h₂
    obtain ⟨b₃, blank₃, t₃⟩ := (afterMark?_some mark).mp h₃
    obtain ⟨b₄, blank₄, t₄⟩ := (afterMark?_some zero).mp h₄
    obtain ⟨b₅, blank₅, t₅⟩ := (afterMark?_some ending).mp h₅
    refine ⟨gap, b₃, b₄, b₅, apart, blank, named, letters, blank₃, blank₄, blank₅, ?_⟩
    rw [t₁, t₂, t₃, t₄, t₅]
  · rintro ⟨gap, b₃, b₄, b₅, apart, blank, named, letters, blank₃, blank₄, blank₅, text⟩
    subst text
    have solid : ∀ c ∈ (name ++ (b₃ ++ '=' :: (b₄ ++ '0' :: (b₅ ++ ';' :: rest)))).head?,
        isBlank c = false := by
      intro c first
      cases name with
      | nil => exact absurd rfl named
      | cons d name =>
        cases first
        by_contra blank
        have word := letters c List.mem_cons_self
        rw [isWord_of_blank (by simpa using blank)] at word
        cases word
    have ends : ∀ c ∈ (b₃ ++ '=' :: (b₄ ++ '0' :: (b₅ ++ ';' :: rest))).head?,
        isWord c = false := by
      intro c first
      cases b₃ with
      | nil =>
        cases first
        decide
      | cons d b₃ =>
        cases first
        exact isWord_of_blank (blank₃ c List.mem_cons_self)
    have h₁ := some1?_some.mpr ⟨rfl, apart, blank, solid⟩
    have h₂ := some1?_some.mpr ⟨rfl, named, letters, ends⟩
    simp only [zeroNamed?, h₁, h₂, afterMark?_past mark blank₃, afterMark?_past zero blank₄,
      afterMark?_past ending blank₅, bind, Option.bind]

/-- A text begins with a declaration with a zero initializer exactly if it has the parts of one. -/
theorem zeroDeclaration?_some {shape : FloatShape} {s text rest : List Char} :
    zeroDeclaration? shape s = some (text, rest) ↔
      ∃ z : ZeroForm shape, s = z.old ++ rest ∧ text = z.new := by
  constructor
  · intro made
    simp only [zeroDeclaration?, bind, Option.bind_eq_some_iff, Prod.exists, Option.some.injEq,
      Prod.mk.injEq] at made
    obtain ⟨s₁, h₁, size, s₂, h₂, name, s₃, h₃, same, same'⟩ := made
    subst same'
    obtain ⟨sized, t₂⟩ := FloatShape.size?_some.mp h₂
    obtain ⟨gap, b₃, b₄, b₅, apart, blank, named, letters, blank₃, blank₄, blank₅, t₃⟩ :=
      zeroNamed?_some.mp h₃
    refine ⟨⟨size, gap, name, b₃, b₄, b₅, sized, apart, blank, named, letters, blank₃, blank₄,
      blank₅⟩, ?_, same.symm⟩
    rw [afterExactly?_some.mp h₁, t₂, t₃]
    simp only [ZeroForm.old, ZeroForm.type, ZeroForm.tail, List.append_assoc, List.cons_append,
      List.nil_append]
  · rintro ⟨z, text, same⟩
    have h₁ : afterExactly? "float".toList s =
        some (z.size ++ (z.gap ++ (z.name ++ (z.tail ++ rest)))) := by
      rw [afterExactly?_some, text]
      simp only [ZeroForm.old, ZeroForm.type, List.append_assoc]
    have h₂ : shape.size? (z.size ++ (z.gap ++ (z.name ++ (z.tail ++ rest)))) =
        some (z.size, z.gap ++ (z.name ++ (z.tail ++ rest))) :=
      FloatShape.size?_some.mpr ⟨z.sized, rfl⟩
    have h₃ : zeroNamed? (z.gap ++ (z.name ++ (z.tail ++ rest))) = some (z.name, rest) := by
      refine zeroNamed?_some.mpr ⟨z.gap, z.beforeMark, z.beforeZero, z.beforeEnd, z.apart,
        z.gap_blank, z.named, z.name_word, z.mark_blank, z.zero_blank, z.end_blank, ?_⟩
      simp only [ZeroForm.tail, List.append_assoc, List.cons_append, List.nil_append]
    rw [same]
    simp only [zeroDeclaration?, h₁, h₂, h₃, bind, Option.bind]
    rfl

end ShaderBench.Shader
