import ShaderBench.Proofs.Shader.Passes
import ShaderBench.Proofs.Shader.ZeroForm
/-
The two passes over zero initializers, first for vectors and then for plain floats, are one pass
that replaces either form wherever it begins at the start of a word.
-/
namespace ShaderBench.Shader
open Text

attribute [grind =] coerce

namespace ZeroForm
variable {shape : FloatShape} (z : ZeroForm shape)

theorem old_append (s : List Char) :
    z.old ++ s = "float".toList ++ (z.size ++ (z.gap ++ (z.name ++ (z.tail ++ s)))) := by
  simp only [old, type, List.append_assoc]

theorem type_word : ∀ c ∈ z.type, isWord c := by
  have sizes : ∀ size ∈ shape.sizes, size.all isWord := by cases shape <;> decide
  have float : ∀ c ∈ "float".toList, isWord c := List.all_eq_true.mp (by decide)
  intro c member
  rcases List.mem_append.mp member with word | digit
  · exact float c word
  · exact List.all_eq_true.mp (sizes z.size z.sized) c digit

theorem gap_stops (s : List Char) : ∀ c ∈ (z.gap ++ s).head?, isWord c = false := by
  intro c first
  cases h : z.gap with
  | nil => exact absurd h z.apart
  | cons d gap =>
    rw [h] at first
    cases first
    exact isWord_of_blank (z.gap_blank c (by rw [h]; exact List.mem_cons_self))

theorem name_stops (s : List Char) : ∀ c ∈ (z.name ++ s).head?, isBlank c = false := by
  intro c first
  cases h : z.name with
  | nil => exact absurd h z.named
  | cons d name =>
    rw [h] at first
    cases first
    have word := z.name_word c (by rw [h]; exact List.mem_cons_self)
    by_contra blank
    rw [isWord_of_blank (by simpa using blank)] at word
    cases word

theorem tail_stops (s : List Char) : ∀ c ∈ (z.tail ++ s).head?, isWord c = false := by
  intro c first
  cases h : z.beforeMark with
  | nil =>
    rw [tail, h] at first
    cases first
    decide
  | cons d blanks =>
    rw [tail, h] at first
    cases first
    exact isWord_of_blank (z.mark_blank c (by rw [h]; exact List.mem_cons_self))

end ZeroForm

theorem zeroDeclaration?_name {shape : FloatShape} {name blanks : List Char}
    (word : ∀ c ∈ name, isWord c) (blank : ∀ c ∈ blanks, isBlank c) (s : List Char) :
    zeroDeclaration? shape (name ++ (blanks ++ '=' :: s)) = none := by
  cases found : zeroDeclaration? shape (name ++ (blanks ++ '=' :: s)) with
  | none => rfl
  | some pair =>
    obtain ⟨z, text, _⟩ := zeroDeclaration?_some.mp found
    have stops : ∀ c ∈ (blanks ++ '=' :: s).head?, isWord c = false := by
      intro c first
      cases blanks with
      | nil =>
        cases first
        decide
      | cons d blanks =>
        cases first
        exact isWord_of_blank (blank c List.mem_cons_self)
    rw [z.old_append, ← List.append_assoc "float".toList] at text
    obtain ⟨_, after⟩ := cut_unique word z.type_word stops (z.gap_stops _) text
    have solid : ∀ c ∈ ('=' :: s).head?, isBlank c = false := by
      intro c first
      cases first
      decide
    obtain ⟨_, same⟩ := cut_unique blank z.gap_blank solid (z.name_stops _) after
    cases h : z.name with
    | nil => exact absurd h z.named
    | cons c name =>
      rw [h] at same
      have first : c = '=' := (List.cons.inj same).1.symm
      have letter := z.name_word c (by rw [h]; exact List.mem_cons_self)
      rw [first] at letter
      exact absurd letter (by decide)

theorem zeroDeclaration?_float {shape : FloatShape} {c : Char} {s text rest : List Char}
    (found : zeroDeclaration? shape ("float".toList ++ c :: s) = some (text, rest)) :
    match shape with
    | .scalar => isBlank c
    | .vector => isBlank c = false := by
  obtain ⟨z, same, _⟩ := zeroDeclaration?_some.mp found
  rw [z.old_append] at same
  have after := List.append_cancel_left same
  cases shape with
  | scalar =>
    have none : z.size = [] := by simpa [FloatShape.sizes] using z.sized
    cases h : z.gap with
    | nil => exact absurd h z.apart
    | cons d gap =>
      rw [none, h] at after
      cases after
      exact z.gap_blank c (by rw [h]; exact List.mem_cons_self)
  | vector =>
    have digits : ∀ size ∈ FloatShape.vector.sizes, ∀ t, ∀ d ∈ (size ++ t).head?,
        isBlank d = false := by
      intro size listed t d first
      simp only [FloatShape.sizes, List.mem_cons, List.not_mem_nil, or_false] at listed
      rcases listed with two | three | four
      · subst two
        cases first
        decide
      · subst three
        cases first
        decide
      · subst four
        cases first
        decide
    apply digits z.size z.sized
    rw [← after]
    rfl

theorem zeroDeclaration?_other {shape : FloatShape} {c : Char} (other : c ≠ 'f') (s : List Char) :
    zeroDeclaration? shape (c :: s) = none := by
  cases found : zeroDeclaration? shape (c :: s) with
  | none => rfl
  | some pair =>
    obtain ⟨z, text, _⟩ := zeroDeclaration?_some.mp found
    rw [z.old_append] at text
    exact absurd (List.cons.inj text).1 other

/-- Whether no declaration can begin in a text: a character is no f, or follows a word. -/
@[grind =] def passed : Bool → List Char → Bool
  | _, [] => true
  | afterWord, c :: p => (afterWord || c ≠ 'f') && passed (isWord c) p

@[grind =] def wordAfter : Bool → List Char → Bool
  | afterWord, [] => afterWord
  | _, c :: p => wordAfter (isWord c) p

theorem passed_append (afterWord : Bool) (p q : List Char) :
    passed afterWord (p ++ q) = (passed afterWord p && passed (wordAfter afterWord p) q) := by
  induction p generalizing afterWord with
  | nil => simp [passed, wordAfter]
  | cons c p ih => simp [passed, wordAfter, ih, Bool.and_assoc]

theorem wordAfter_append (afterWord : Bool) (p q : List Char) :
    wordAfter afterWord (p ++ q) = wordAfter (wordAfter afterWord p) q := by
  induction p generalizing afterWord with
  | nil => rfl
  | cons c p ih => simp [wordAfter, ih]

theorem passed_word {p : List Char} (word : ∀ c ∈ p, isWord c) : passed true p := by
  induction p with
  | nil => rfl
  | cons c p ih =>
    have here := word c List.mem_cons_self
    simp [passed, here, ih fun d member => word d (List.mem_cons_of_mem c member)]

theorem wordAfter_word {p : List Char} (word : ∀ c ∈ p, isWord c) : wordAfter true p = true := by
  induction p with
  | nil => rfl
  | cons c p ih =>
    rw [wordAfter, word c List.mem_cons_self]
    exact ih fun d member => word d (List.mem_cons_of_mem c member)

theorem passed_other {p : List Char} (afterWord : Bool) (other : ∀ c ∈ p, c ≠ 'f') :
    passed afterWord p := by
  induction p generalizing afterWord with
  | nil => rfl
  | cons c p ih =>
    have here := other c List.mem_cons_self
    simp [passed, here, ih (isWord c) fun d member => other d (List.mem_cons_of_mem c member)]

theorem wordAfter_blank {p : List Char} (afterWord : Bool) (some : p ≠ [])
    (blank : ∀ c ∈ p, isBlank c) : wordAfter afterWord p = false := by
  induction p generalizing afterWord with
  | nil => exact absurd rfl some
  | cons c p ih =>
    rw [wordAfter, isWord_of_blank (blank c List.mem_cons_self)]
    cases p with
    | nil => rfl
    | cons d p => exact ih false (by simp) fun e member => blank e (List.mem_cons_of_mem c member)

theorem not_f_of_blank {c : Char} (blank : isBlank c) : c ≠ 'f' := by
  intro same
  rw [same] at blank
  exact absurd blank (by decide)

theorem coerce_step {shape : FloatShape} {afterWord : Bool} {c : Char} {s : List Char}
    (none : afterWord = true ∨ zeroDeclaration? shape (c :: s) = none) :
    coerce shape afterWord (c :: s) = c :: coerce shape (isWord c) s := by
  have passes : (if afterWord then Option.none else zeroDeclaration? shape (c :: s)) = Option.none := by
    rcases none with word | none
    · rw [if_pos word]
    · split
      · rfl
      · exact none
  rw [coerce, passes]

theorem coerce_found {shape : FloatShape} {c : Char} {s text rest : List Char}
    (found : zeroDeclaration? shape (c :: s) = some (text, rest)) :
    coerce shape false (c :: s) = text ++ coerce shape false rest := by
  have here : (if false = true then Option.none else zeroDeclaration? shape (c :: s)) =
      some (text, rest) := by
    rw [if_neg (by decide), found]
  rw [coerce, here]

theorem coerce_passed {shape : FloatShape} {afterWord : Bool} {p : List Char}
    (passes : passed afterWord p) (s : List Char) :
    coerce shape afterWord (p ++ s) = p ++ coerce shape (wordAfter afterWord p) s := by
  induction p generalizing afterWord with
  | nil => rfl
  | cons c p ih =>
    simp only [passed, Bool.and_eq_true, Bool.or_eq_true, decide_eq_true_eq] at passes
    have none : afterWord = true ∨ zeroDeclaration? shape (c :: (p ++ s)) = none := by
      rcases passes.1 with word | other
      · exact Or.inl word
      · exact Or.inr (zeroDeclaration?_other other (p ++ s))
    rw [List.cons_append, coerce_step none, ih passes.2]
    rfl

theorem coerce_pull {shape : FloatShape} {afterWord : Bool} {s p r : List Char}
    (same : coerce shape afterWord s = p ++ r) (passes : passed afterWord p) :
    ∃ rest, s = p ++ rest ∧ coerce shape (wordAfter afterWord p) rest = r := by
  induction p generalizing afterWord s with
  | nil => exact ⟨s, rfl, same⟩
  | cons c p ih =>
    simp only [passed, Bool.and_eq_true, Bool.or_eq_true, decide_eq_true_eq] at passes
    cases s with
    | nil =>
      rw [coerce] at same
      cases same
    | cons d s =>
      have none : afterWord = true ∨ zeroDeclaration? shape (d :: s) = none := by
        rcases passes.1 with word | other
        · exact Or.inl word
        · cases afterWord with
          | true => exact Or.inl rfl
          | false =>
            right
            cases found : zeroDeclaration? shape (d :: s) with
            | none => rfl
            | some pair =>
              obtain ⟨z, _, text⟩ := zeroDeclaration?_some.mp found
              rw [coerce_found found, text] at same
              exact absurd (List.cons.inj same).1.symm other
      rw [coerce_step none] at same
      obtain ⟨first, later⟩ := List.cons.inj same
      subst first
      obtain ⟨rest, text, coerced⟩ := ih later passes.2
      exact ⟨rest, by rw [text]; rfl, coerced⟩

namespace ZeroForm

theorem tail_passed {shape : FloatShape} (z : ZeroForm shape) (afterWord : Bool) :
    passed afterWord z.tail := by
  apply passed_other
  intro c member
  simp only [tail, List.mem_append, List.mem_cons, List.not_mem_nil, or_false] at member
  rcases member with mark | equals | zero | digit | blank | ending
  · exact not_f_of_blank (z.mark_blank c mark)
  · rw [equals]
    decide
  · exact not_f_of_blank (z.zero_blank c zero)
  · rw [digit]
    decide
  · exact not_f_of_blank (z.end_blank c blank)
  · rw [ending]
    decide

theorem tail_ends {shape : FloatShape} (z : ZeroForm shape) (afterWord : Bool) :
    wordAfter afterWord z.tail = false := by
  have last : z.tail = z.beforeMark ++ '=' :: (z.beforeZero ++ '0' :: z.beforeEnd) ++ [';'] := by
    simp [tail]
  rw [last, wordAfter_append]
  rfl

theorem coerce_name {shape other : FloatShape} (z : ZeroForm shape) {s : List Char}
    (none : zeroDeclaration? other (z.name ++ s) = none) :
    coerce other false (z.name ++ s) = z.name ++ coerce other true s := by
  cases h : z.name with
  | nil => exact absurd h z.named
  | cons c name =>
    have letters : ∀ d ∈ c :: name, isWord d := by
      rw [← h]
      exact z.name_word
    have word := letters c List.mem_cons_self
    have rest : ∀ d ∈ name, isWord d := fun d member => letters d (List.mem_cons_of_mem c member)
    rw [h, List.cons_append] at none
    rw [List.cons_append, coerce_step (Or.inr none), word, coerce_passed (passed_word rest),
      wordAfter_word rest]
    rfl

theorem type_cons {shape : FloatShape} (z : ZeroForm shape) :
    z.type = 'f' :: ("loat".toList ++ z.size) := rfl

theorem type_rest_word {shape : FloatShape} (z : ZeroForm shape) :
    ∀ c ∈ "loat".toList ++ z.size, isWord c :=
  fun c member => z.type_word c (z.type_cons ▸ List.mem_cons_of_mem 'f' member)

theorem old_parts {shape : FloatShape} (z : ZeroForm shape) (s : List Char) :
    z.old ++ s = 'f' :: ("loat".toList ++ z.size ++ z.gap ++ (z.name ++ (z.tail ++ s))) := by
  rw [z.old_append]
  simp

theorem gap_passed {shape : FloatShape} (z : ZeroForm shape) :
    passed true ("loat".toList ++ z.size ++ z.gap) ∧
      wordAfter true ("loat".toList ++ z.size ++ z.gap) = false := by
  constructor
  · rw [passed_append, passed_word z.type_rest_word,
      passed_other _ fun c member => not_f_of_blank (z.gap_blank c member)]
    rfl
  · rw [wordAfter_append]
    exact wordAfter_blank _ z.apart z.gap_blank

theorem zeroDeclaration?_scalar (z : ZeroForm .scalar) (s : List Char) :
    zeroDeclaration? .vector (z.old ++ s) = none := by
  have plain : z.size = [] := by simpa [FloatShape.sizes] using z.sized
  cases found : zeroDeclaration? .vector (z.old ++ s) with
  | none => rfl
  | some pair =>
    cases h : z.gap with
    | nil => exact absurd h z.apart
    | cons c gap =>
      rw [z.old_append, plain, h] at found
      have digit := zeroDeclaration?_float found
      simp only at digit
      rw [z.gap_blank c (by rw [h]; exact List.mem_cons_self)] at digit
      cases digit

/-- The pass over vectors leaves the declaration of a plain float as it is. -/
theorem coerce_old (z : ZeroForm .scalar) (s : List Char) :
    coerce .vector false (z.old ++ s) = z.old ++ coerce .vector false s := by
  have head := z.zeroDeclaration?_scalar s
  have name : zeroDeclaration? .vector (z.name ++ (z.tail ++ s)) = none := by
    simp only [tail, List.append_assoc, List.cons_append]
    exact zeroDeclaration?_name z.name_word z.mark_blank _
  rw [old_parts] at head
  rw [old_parts, coerce_step (Or.inr head), show isWord 'f' = true by decide,
    coerce_passed z.gap_passed.1, z.gap_passed.2, z.coerce_name name,
    coerce_passed (z.tail_passed true), z.tail_ends, ← old_parts]

theorem vector_size (z : ZeroForm .vector) :
    ∃ c, z.size = [c] ∧ isBlank c = false ∧ isWord c := by
  have listed := z.sized
  simp only [FloatShape.sizes, List.mem_cons, List.not_mem_nil, or_false] at listed
  rcases listed with two | three | four
  · exact ⟨'2', two, by decide, by decide⟩
  · exact ⟨'3', three, by decide, by decide⟩
  · exact ⟨'4', four, by decide, by decide⟩

theorem coerce_type (z : ZeroForm .vector) (t : List Char) :
    coerce .scalar false (z.type ++ t) = z.type ++ coerce .scalar true t := by
  obtain ⟨digit, sized, solid, letter⟩ := z.vector_size
  have head : zeroDeclaration? .scalar ('f' :: ("loat".toList ++ ([digit] ++ t))) = none := by
    cases found : zeroDeclaration? .scalar ('f' :: ("loat".toList ++ ([digit] ++ t))) with
    | none => rfl
    | some pair =>
      have blank := zeroDeclaration?_float (c := digit) (s := t) found
      simp only at blank
      rw [solid] at blank
      cases blank
  have letters : ∀ c ∈ "loat".toList, isWord c := List.all_eq_true.mp (by decide)
  have word : ∀ c ∈ "loat".toList ++ [digit], isWord c := by
    intro c member
    rcases List.mem_append.mp member with inside | last
    · exact letters c inside
    · rw [List.mem_singleton.mp last]
      exact letter
  have text : z.type ++ t = 'f' :: ("loat".toList ++ [digit] ++ t) := by
    simp [type, sized]
  rw [← List.append_assoc] at head
  rw [text, coerce_step (Or.inr head), show isWord 'f' = true by decide,
    coerce_passed (passed_word word), wordAfter_word word]
  simp [type, sized]

theorem coerce_new (z : ZeroForm .vector) (s : List Char) :
    coerce .scalar false (z.new ++ s) = z.new ++ coerce .scalar false s := by
  have text : ∀ t, z.new ++ t = z.type ++ ([' '] ++ (z.name ++ (" = ".toList ++
      (z.type ++ ("(0.0);".toList ++ t))))) := by
    intro t
    simp [new, FloatShape.zero]
  have blank : ∀ c ∈ [' '], isBlank c := List.all_eq_true.mp (by decide)
  have name : zeroDeclaration? .scalar (z.name ++ (" = ".toList ++
      (z.type ++ ("(0.0);".toList ++ s)))) = none :=
    zeroDeclaration?_name z.name_word blank _
  rw [text, z.coerce_type, coerce_passed (show passed true [' '] by decide),
    show wordAfter true [' '] = false by decide, z.coerce_name name,
    coerce_passed (show passed true " = ".toList by decide),
    show wordAfter true " = ".toList = false by decide, z.coerce_type,
    coerce_passed (show passed true "(0.0);".toList by decide),
    show wordAfter true "(0.0);".toList = false by decide, text]

theorem new_append {shape : FloatShape} (z : ZeroForm shape) (s : List Char) :
    z.new ++ s =
      z.type ++ ([' '] ++ (z.name ++ (" = ".toList ++ (shape.zero z.type ++ ';' :: s)))) := by
  simp [new]

theorem space_stops {s : List Char} : ∀ c ∈ ([' '] ++ s).head?, isWord c = false := by
  intro c head
  cases head
  decide

/-- A new declaration has its own name where a name would end at an equals sign. -/
theorem new_apart {shape other : FloatShape} (z' : ZeroForm other) (z : ZeroForm shape)
    (s t : List Char) : z'.new ++ s ≠ z.name ++ (z.tail ++ t) := by
  intro same
  have parts := (z'.new_append s).symm.trans same
  obtain ⟨_, tails⟩ := cut_unique z'.type_word z.name_word space_stops (z.tail_stops t) parts
  have solid : ∀ c ∈ ('=' :: (z.beforeZero ++ '0' :: (z.beforeEnd ++ [';'])) ++ t).head?,
      isBlank c = false := by
    intro c head
    cases head
    decide
  have blank : ∀ c ∈ [' '], isBlank c := List.all_eq_true.mp (by decide)
  rw [tail, List.append_assoc] at tails
  obtain ⟨_, clash⟩ := cut_unique blank z.mark_blank (z'.name_stops _) solid tails
  cases h : z'.name with
  | nil => exact absurd h z'.named
  | cons c name =>
    rw [h] at clash
    have equals : c = '=' := (List.cons.inj clash).1
    have letter := z'.name_word c (by rw [h]; exact List.mem_cons_self)
    rw [equals] at letter
    exact absurd letter (by decide)

theorem pull_name {shape other : FloatShape} (z : ZeroForm shape) {s after : List Char}
    (coerced : coerce other false s = z.name ++ (z.tail ++ after)) :
    ∃ rest, s = z.name ++ (z.tail ++ rest) := by
  cases h : z.name with
  | nil => exact absurd h z.named
  | cons d name =>
    have letters : ∀ e ∈ d :: name, isWord e := by
      rw [← h]
      exact z.name_word
    cases s with
    | nil =>
      rw [coerce, h] at coerced
      cases coerced
    | cons e s =>
      cases found : zeroDeclaration? other (e :: s) with
      | some pair =>
        obtain ⟨z', _, made⟩ := zeroDeclaration?_some.mp found
        rw [coerce_found found, made] at coerced
        exact absurd coerced (z'.new_apart z _ _)
      | none =>
        rw [coerce_step (Or.inr found), h, List.cons_append] at coerced
        obtain ⟨head, behind⟩ := List.cons.inj coerced
        subst head
        rw [letters e List.mem_cons_self, ← List.append_assoc] at behind
        have word : passed true (name ++ z.tail) := by
          rw [passed_append, z.tail_passed,
            passed_word fun x member => letters x (List.mem_cons_of_mem e member)]
          rfl
        obtain ⟨rest, text, _⟩ := coerce_pull behind word
        exact ⟨rest, by rw [text, List.append_assoc]; rfl⟩

end ZeroForm

/-- No pass makes a declaration with a zero initializer begin where none did. -/
theorem zeroDeclaration?_coerced {shape : FloatShape} (other : FloatShape) {c : Char}
    {s : List Char} (none : zeroDeclaration? shape (c :: s) = none) :
    zeroDeclaration? shape (c :: coerce other (isWord c) s) = Option.none := by
  cases found : zeroDeclaration? shape (c :: coerce other (isWord c) s) with
  | none => rfl
  | some pair =>
    obtain ⟨text, after⟩ := pair
    obtain ⟨z, same, _⟩ := zeroDeclaration?_some.mp found
    rw [z.old_parts] at same
    obtain ⟨first, later⟩ := List.cons.inj same
    subst first
    rw [show isWord 'f' = true by decide] at later
    obtain ⟨s₁, text₁, coerced⟩ := coerce_pull later z.gap_passed.1
    rw [z.gap_passed.2] at coerced
    obtain ⟨rest, text₂⟩ := z.pull_name coerced
    have whole : 'f' :: s = z.old ++ rest := by
      rw [z.old_parts, text₁, text₂]
    rw [zeroDeclaration?_some.mpr ⟨z, whole, rfl⟩] at none
    cases none

def zero? (s : List Char) : Option (List Char × List Char) :=
  (zeroDeclaration? .vector s).or (zeroDeclaration? .scalar s)

theorem zero?_some {s text rest : List Char} (found : zero? s = some (text, rest)) :
    ∃ shape, ∃ z : ZeroForm shape, s = z.old ++ rest ∧ text = z.new := by
  rcases Option.or_eq_some_iff.mp found with vector | ⟨_, scalar⟩
  · exact ⟨.vector, zeroDeclaration?_some.mp vector⟩
  · exact ⟨.scalar, zeroDeclaration?_some.mp scalar⟩

theorem zero?_shorter {s text rest : List Char} (found : zero? s = some (text, rest)) :
    rest.length < s.length := by
  rcases Option.or_eq_some_iff.mp found with vector | ⟨_, scalar⟩
  · exact zeroDeclaration?_shorter vector
  · exact zeroDeclaration?_shorter scalar

def zeroAt? (afterWord : Bool) (s : List Char) : Option (List Char × List Char) :=
  if afterWord then none else zero? s

theorem zeroAt?_some {afterWord : Bool} {s : List Char} {found : List Char × List Char}
    (here : zeroAt? afterWord s = some found) : afterWord = false ∧ zero? s = some found := by
  cases afterWord with
  | true => cases here
  | false => exact ⟨rfl, here⟩

/-- A document as its declarations with zero initializers, with their new forms, and what stays. -/
@[grind =] def zeroPieces (afterWord : Bool) : List Char → List Piece
  | [] => []
  | c :: s =>
    match _found : zeroAt? afterWord (c :: s) with
    | some (text, rest) => .swapped (upTo rest (c :: s)) text :: zeroPieces false rest
    | none => .kept c :: zeroPieces (isWord c) s
termination_by s => s.length
decreasing_by
  · exact zero?_shorter (zeroAt?_some _found).2
  · simp

theorem upTo_old {shape : FloatShape} (z : ZeroForm shape) (rest : List Char) :
    upTo rest (z.old ++ rest) = z.old := by
  simp [upTo]

theorem original_zeroPieces (afterWord : Bool) (s : List Char) :
    original (zeroPieces afterWord s) = s := by
  induction afterWord, s using zeroPieces.induct with
  | case1 => simp [zeroPieces]
  | case2 afterWord c s text rest here ih =>
    obtain ⟨_, found⟩ := zeroAt?_some here
    obtain ⟨_, z, same, _⟩ := zero?_some found
    rw [zeroPieces, here, original_cons, ih]
    exact upTo_append ⟨z.old, same.symm⟩
  | case3 afterWord c s none ih =>
    rw [zeroPieces, none, original_cons, ih]
    rfl

theorem zeroPieces_swapped {afterWord : Bool} {s old new : List Char}
    (listed : .swapped old new ∈ zeroPieces afterWord s) :
    ∃ shape, ∃ z : ZeroForm shape, old = z.old ∧ new = z.new := by
  induction afterWord, s using zeroPieces.induct with
  | case1 => simp [zeroPieces] at listed
  | case2 afterWord c s text rest here ih =>
    obtain ⟨_, found⟩ := zeroAt?_some here
    obtain ⟨shape, z, same, made⟩ := zero?_some found
    rw [zeroPieces, here] at listed
    rcases List.mem_cons.mp listed with first | later
    · cases first
      exact ⟨shape, z, by rw [same, upTo_old], made⟩
    · exact ih later
  | case3 afterWord c s none ih =>
    rw [zeroPieces, none] at listed
    rcases List.mem_cons.mp listed with first | later
    · cases first
    · exact ih later

/-- The two passes in a row are the one that replaces either form. -/
theorem coerce_twice (afterWord : Bool) (s : List Char) :
    coerce .scalar afterWord (coerce .vector afterWord s) = rewritten (zeroPieces afterWord s) := by
  induction afterWord, s using zeroPieces.induct with
  | case1 => simp [zeroPieces, coerce]
  | case2 afterWord c s text rest here ih =>
    obtain ⟨start, found⟩ := zeroAt?_some here
    subst start
    rw [zeroPieces, here, rewritten_cons]
    rcases Option.or_eq_some_iff.mp found with vector | ⟨_, scalar⟩
    · obtain ⟨z, _, made⟩ := zeroDeclaration?_some.mp vector
      rw [coerce_found vector, made, z.coerce_new, ih]
      rfl
    · obtain ⟨z, same, made⟩ := zeroDeclaration?_some.mp scalar
      have again : zeroDeclaration? .scalar (z.old ++ coerce .vector false rest) =
          some (text, coerce .vector false rest) :=
        zeroDeclaration?_some.mpr ⟨z, rfl, made⟩
      rw [same, z.coerce_old]
      cases old : z.old ++ coerce .vector false rest with
      | nil => simp [ZeroForm.old, ZeroForm.tail] at old
      | cons d more =>
        rw [old] at again
        rw [coerce_found again, ih]
        rfl
  | case3 afterWord c s none ih =>
    rw [zeroPieces, none, rewritten_cons, ← ih]
    cases afterWord with
    | true => rw [coerce_step (Or.inl rfl), coerce_step (Or.inl rfl)]; rfl
    | false =>
      obtain ⟨vector, scalar⟩ := Option.or_eq_none_iff.mp none
      rw [coerce_step (Or.inr vector), coerce_step (Or.inr (zeroDeclaration?_coerced .vector scalar))]
      rfl

theorem rewritten_zeroPieces (s : List Char) : rewritten (zeroPieces false s) = coerceZeros s :=
  (coerce_twice false s).symm

theorem not_newline_of_word {c : Char} (word : isWord c) : c ≠ '\n' := by
  intro same
  rw [same] at word
  exact absurd word (by decide)

theorem ZeroForm.newlines_new {shape : FloatShape} (z : ZeroForm shape) : newlines z.new = 0 := by
  have type : newlines z.type = 0 :=
    newlines_eq_zero fun broken => not_newline_of_word (z.type_word _ broken) rfl
  have name : newlines z.name = 0 :=
    newlines_eq_zero fun broken => not_newline_of_word (z.name_word _ broken) rfl
  have zero : newlines (shape.zero z.type) = 0 := by
    cases shape with
    | scalar => rfl
    | vector => simp [FloatShape.zero, type]
  simp [ZeroForm.new, type, name, zero]

theorem zeroPieces_shrinks (afterWord : Bool) (document : List Char) :
    ∀ p ∈ zeroPieces afterWord document, newlines p.new ≤ newlines p.old := by
  intro p listed
  cases p with
  | kept c => exact Nat.le_refl _
  | swapped old new =>
    obtain ⟨_, z, _, made⟩ := zeroPieces_swapped listed
    subst made
    have none : newlines (Piece.swapped old z.new).new = 0 := ZeroForm.newlines_new z
    omega

theorem zeroPieces_keepsBreaks_iff (document : List Char) :
    KeepsBreaks (zeroPieces false document) ↔ Unbroken (zeroPieces false document) := by
  apply keepsBreaks_iff_unbroken
  intro old new listed
  obtain ⟨_, z, _, made⟩ := zeroPieces_swapped listed
  rw [made]
  exact ZeroForm.newlines_new z

theorem newlines_coerceZeros_le (document : List Char) :
    newlines (coerceZeros document) ≤ newlines document := by
  have fewer := newlines_rewritten_le (zeroPieces_shrinks false document)
  rwa [rewritten_zeroPieces, original_zeroPieces] at fewer

end ShaderBench.Shader
