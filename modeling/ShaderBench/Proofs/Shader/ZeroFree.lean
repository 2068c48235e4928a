import ShaderBench.Proofs.Shader.ZeroPieces
/-
Texts in which no zero initializer is left to get a new form. The two passes leave such a text as it
is, and they make one of every text: what they put in holds no zero initializer, and neither it nor
the text around it completes one.
-/
namespace ShaderBench.Shader
open Text

def HasZero (shape : FloatShape) (s : List Char) : Prop :=
  ∃ before after, ∃ z : ZeroForm shape,
    s = before ++ (z.old ++ after) ∧ wordAfter false before = false

/-- No declaration of either shape begins in a text, which a word goes on in or not. -/
@[grind =] def zeroFree : Bool → List Char → Bool
  | _, [] => true
  | afterWord, c :: s => (zeroAt? afterWord (c :: s)).isNone && zeroFree (isWord c) s

theorem zeroFree_append {afterWord : Bool} {p s : List Char} (free : zeroFree afterWord (p ++ s)) :
    zeroFree (wordAfter afterWord p) s := by
  induction p generalizing afterWord with
  | nil => exact free
  | cons c p ih =>
    rw [List.cons_append, zeroFree, Bool.and_eq_true] at free
    exact ih free.2

theorem zero?_old {shape : FloatShape} (z : ZeroForm shape) (s : List Char) :
    (zero? (z.old ++ s)).isSome := by
  have found : zeroDeclaration? shape (z.old ++ s) = some (z.new, s) :=
    zeroDeclaration?_some.mpr ⟨z, rfl, rfl⟩
  rw [zero?, Option.isSome_or]
  cases shape with
  | vector => rw [found]; rfl
  | scalar => rw [found, Bool.or_comm]; rfl

theorem zeroFree_iff (s : List Char) : zeroFree false s ↔ ∀ shape, ¬ HasZero shape s := by
  constructor
  · rintro free shape ⟨before, after, z, text, fresh⟩
    rw [text] at free
    have later := zeroFree_append free
    rw [fresh, z.old_parts, zeroFree, ← z.old_parts, Bool.and_eq_true] at later
    have none : zero? (z.old ++ after) = none := Option.isNone_iff_eq_none.mp later.1
    have found := zero?_old z after
    rw [none] at found
    cases found
  · intro none
    -- What lies before the place that is looked at is put back to find it in the whole text.
    suffices every : ∀ before rest, s = before ++ rest → zeroFree (wordAfter false before) rest by
      exact every [] s rfl
    intro before rest
    induction rest generalizing before with
    | nil => intro _; rfl
    | cons c rest ih =>
      intro text
      have later := ih (before ++ [c]) (by rw [text, List.append_assoc]; rfl)
      rw [wordAfter_append] at later
      have here : zeroAt? (wordAfter false before) (c :: rest) = Option.none := by
        cases found : zeroAt? (wordAfter false before) (c :: rest) with
        | none => rfl
        | some pair =>
          obtain ⟨fresh, made⟩ := zeroAt?_some found
          obtain ⟨shape, z, same, _⟩ := zero?_some made
          exact absurd ⟨before, pair.2, z, by rw [text, same], fresh⟩ (none shape)
      rw [zeroFree, here]
      exact later

theorem zeroPieces_free {afterWord : Bool} {s : List Char} (free : zeroFree afterWord s) :
    zeroPieces afterWord s = untouched s := by
  induction s generalizing afterWord with
  | nil => simp [zeroPieces, untouched]
  | cons c s ih =>
    rw [zeroFree, Bool.and_eq_true, Option.isNone_iff_eq_none] at free
    rw [zeroPieces, free.1, ih free.2]
    rfl

theorem coerceZeros_free {s : List Char} (free : zeroFree false s) : coerceZeros s = s := by
  rw [← rewritten_zeroPieces, zeroPieces_free free, rewritten_untouched]

/- The new form of a declaration holds no declaration with a zero initializer. -/

theorem zeroFree_passed {afterWord : Bool} {p : List Char} (passes : passed afterWord p)
    (s : List Char) : zeroFree afterWord (p ++ s) = zeroFree (wordAfter afterWord p) s := by
  induction p generalizing afterWord with
  | nil => rfl
  | cons c p ih =>
    simp only [passed, Bool.and_eq_true, Bool.or_eq_true, decide_eq_true_eq] at passes
    have none : zeroAt? afterWord (c :: (p ++ s)) = none := by
      rcases passes.1 with word | other
      · rw [zeroAt?, if_pos word]
      · simp [zeroAt?, zero?, zeroDeclaration?_other other]
    rw [List.cons_append, zeroFree, none, ih passes.2]
    rfl

theorem zeroFree_word {word : List Char} (letters : ∀ c ∈ word, isWord c) (filled : word ≠ [])
    {s : List Char} (none : zero? (word ++ s) = none) :
    zeroFree false (word ++ s) = zeroFree true s := by
  cases word with
  | nil => exact absurd rfl filled
  | cons c word =>
    have rest : ∀ d ∈ word, isWord d := fun d member => letters d (List.mem_cons_of_mem c member)
    have here : zeroAt? false (c :: (word ++ s)) = Option.none := none
    rw [List.cons_append, zeroFree, here, letters c List.mem_cons_self,
      zeroFree_passed (passed_word rest), wordAfter_word rest]
    rfl

namespace ZeroForm
variable {shape : FloatShape} (z : ZeroForm shape)

theorem zero?_type {c : Char} (solid : isBlank c = false) (mark : isWord c = false)
    (s : List Char) : zero? (z.type ++ c :: s) = none := by
  cases found : zero? (z.type ++ c :: s) with
  | none => rfl
  | some pair =>
    obtain ⟨other, z', text, _⟩ := zero?_some found
    have stops : ∀ d ∈ (c :: s).head?, isWord d = false := by
      intro d first
      cases first
      exact mark
    rw [z'.old_append, ← List.append_assoc "float".toList] at text
    obtain ⟨_, gap⟩ := cut_unique z.type_word z'.type_word stops (z'.gap_stops _) text
    cases h : z'.gap with
    | nil => exact absurd h z'.apart
    | cons d blanks =>
      rw [h] at gap
      have blank := z'.gap_blank d (by rw [h]; exact List.mem_cons_self)
      rw [← (List.cons.inj gap).1, solid] at blank
      cases blank

theorem zero_apart (type : List Char) (begins : type.head? = some 'f') {blanks s t : List Char}
    (blank : ∀ c ∈ blanks, isBlank c) : shape.zero type ++ ';' :: s ≠ '0' :: (blanks ++ ';' :: t) := by
  intro same
  cases shape with
  | vector =>
    cases type with
    | nil => cases begins
    | cons c type =>
      cases begins
      exact absurd (List.cons.inj same).1 (by decide)
  | scalar =>
    have point : '.' :: '0' :: ';' :: s = blanks ++ ';' :: t := (List.cons.inj same).2
    cases blanks with
    | nil => exact absurd (List.cons.inj point).1 (by decide)
    | cons d blanks =>
      have here := blank d List.mem_cons_self
      rw [← (List.cons.inj point).1] at here
      exact absurd here (by decide)

theorem zero_solid (s : List Char) :
    ∀ c ∈ (shape.zero z.type ++ s).head?, isBlank c = false := by
  intro c first
  cases shape with
  | scalar =>
    cases first
    decide
  | vector =>
    cases first
    decide

theorem zero?_new (s : List Char) : zero? (z.new ++ s) = none := by
  cases found : zero? (z.new ++ s) with
  | none => rfl
  | some pair =>
    obtain ⟨other, z', text, _⟩ := zero?_some found
    have space : ∀ c ∈ [' '], isBlank c := List.all_eq_true.mp (by decide)
    have equals : ∀ t : List Char, ∀ c ∈ ('=' :: t).head?, isBlank c = false := by
      intro t c first
      cases first
      decide
    -- The parts of the two declarations are the same up to the values.
    have mark : ∀ t, " = ".toList ++ t = [' '] ++ '=' :: ([' '] ++ t) := fun _ => rfl
    rw [z.new_append, mark, z'.old_append, ← List.append_assoc "float".toList] at text
    obtain ⟨_, gaps⟩ := cut_unique z.type_word z'.type_word space_stops (z'.gap_stops _) text
    obtain ⟨_, names⟩ := cut_unique space z'.gap_blank (z.name_stops _) (z'.name_stops _) gaps
    obtain ⟨_, tails⟩ := cut_unique z.name_word z'.name_word space_stops (z'.tail_stops _) names
    rw [tail, List.append_assoc] at tails
    obtain ⟨_, marks⟩ := cut_unique space z'.mark_blank (equals _) (equals _) tails
    have values : [' '] ++ (shape.zero z.type ++ ';' :: s) =
        z'.beforeZero ++ '0' :: (z'.beforeEnd ++ ';' :: pair.2) := by
      simpa using (List.cons.inj marks).2
    have digit : ∀ c ∈ ('0' :: (z'.beforeEnd ++ ';' :: pair.2)).head?, isBlank c = false := by
      intro c first
      cases first
      decide
    obtain ⟨_, same⟩ := cut_unique space z'.zero_blank (z.zero_solid _) digit values
    exact absurd same (zero_apart z.type rfl z'.end_blank)

theorem zeroFree_new (s : List Char) : zeroFree false (z.new ++ s) = zeroFree false s := by
  have type : ∀ t, zero? (z.type ++ t) = none →
      zeroFree false (z.type ++ t) = zeroFree true t := by
    intro t
    exact zeroFree_word z.type_word (by rw [z.type_cons]; exact List.cons_ne_nil _ _)
  have blank : ∀ c ∈ [' '], isBlank c := List.all_eq_true.mp (by decide)
  have name : ∀ t, zero? (z.name ++ (" = ".toList ++ t)) = none := by
    intro t
    have none := fun shape => @zeroDeclaration?_name shape _ _ z.name_word blank (' ' :: t)
    exact Option.or_eq_none_iff.mpr ⟨none .vector, none .scalar⟩
  have gap : passed true [' '] := by decide
  have gap_ends : wordAfter true [' '] = false := by decide
  have mark : passed true " = ".toList := by decide
  have mark_ends : wordAfter true " = ".toList = false := by decide
  have new := z.zero?_new s
  rw [z.new_append] at new ⊢
  rw [type _ new, zeroFree_passed gap, gap_ends, zeroFree_word z.name_word z.named (name _),
    zeroFree_passed mark, mark_ends]
  cases shape with
  | scalar => exact zeroFree_passed (show passed false "0.0;".toList by decide) s
  | vector =>
    have value : FloatShape.vector.zero z.type ++ ';' :: s = z.type ++ ("(0.0);".toList ++ s) := by
      simp [FloatShape.zero]
    have none : zero? (z.type ++ ("(0.0);".toList ++ s)) = none :=
      z.zero?_type (show isBlank '(' = false by decide) (by decide) ("0.0);".toList ++ s)
    rw [value, type _ none,
      zeroFree_passed (show passed true "(0.0);".toList by decide)]
    rfl

end ZeroForm

/-- No declaration begins before what the passes put in, or over its edge, that was not there. -/
theorem zeroAt?_coerced {afterWord : Bool} {c : Char} {s : List Char}
    (none : zeroAt? afterWord (c :: s) = none) :
    zeroAt? afterWord (c :: rewritten (zeroPieces (isWord c) s)) = Option.none := by
  cases afterWord with
  | true => rfl
  | false =>
    rw [← coerce_twice]
    obtain ⟨vector, scalar⟩ := Option.or_eq_none_iff.mp none
    exact Option.or_eq_none_iff.mpr
      ⟨zeroDeclaration?_coerced .scalar (zeroDeclaration?_coerced .vector vector),
        zeroDeclaration?_coerced .scalar (zeroDeclaration?_coerced .vector scalar)⟩

theorem zeroFree_rewritten (afterWord : Bool) (s : List Char) :
    zeroFree afterWord (rewritten (zeroPieces afterWord s)) := by
  induction afterWord, s using zeroPieces.induct with
  | case1 => simp [zeroPieces, zeroFree]
  | case2 afterWord c s text rest here ih =>
    obtain ⟨start, found⟩ := zeroAt?_some here
    obtain ⟨_, z, _, made⟩ := zero?_some found
    subst start made
    rw [zeroPieces, here, rewritten_cons]
    exact (z.zeroFree_new _).trans ih
  | case3 afterWord c s none ih =>
    rw [zeroPieces, none, rewritten_cons]
    have here := zeroAt?_coerced none
    simp only [Piece.new, List.singleton_append, zeroFree, here, ih]
    rfl

theorem zeroFree_coerceZeros (s : List Char) : zeroFree false (coerceZeros s) := by
  rw [← rewritten_zeroPieces]
  exact zeroFree_rewritten false s

/-- After the passes no zero initializer of either shape is left, and a second time they change
    nothing: the texts that they leave as they are, are those without one. -/
theorem coerceZeros_settles (s : List Char) :
    coerceZeros (coerceZeros s) = coerceZeros s ∧
      (∀ shape, ¬ HasZero shape (coerceZeros s)) ∧
      (coerceZeros s = s ↔ ∀ shape, ¬ HasZero shape s) := by
  have none := (zeroFree_iff _).mp (zeroFree_coerceZeros s)
  refine ⟨coerceZeros_free (zeroFree_coerceZeros s), none, ?_, ?_⟩
  · intro same
    rwa [same] at none
  · intro free
    exact coerceZeros_free ((zeroFree_iff s).mpr free)

end ShaderBench.Shader
