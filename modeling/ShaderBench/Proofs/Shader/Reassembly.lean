import ShaderBench.Proofs.Shader.Semantics
import ShaderBench.Proofs.Shader.Preamble
import ShaderBench.Proofs.Shader.ZeroPieces
/-
A program that is assembled again. No pass finds anything in a preamble, or over its end, so that
one at the front of a document is still there after all of them; and as every assembly puts another
one in front, no program is its own assembly.
-/
namespace ShaderBench.Shader
open Text

section Moved
variable (front : List Char) (d : Declaration) (y : List Char)

theorem Declaration.text_moved :
    (d.moved (byteLength front)).text (front ++ y) = d.text y := by
  rw [text, text]
  exact congrArg (Option.getD · []) (slice?_past front y d.start d.stop)

theorem Declaration.after_moved :
    (d.moved (byteLength front)).after (front ++ y) = d.after y := by
  rw [after, after]
  have cut := cutAt?_past front y d.stop
  rw [moved, cut, Option.map_map]
  rfl

theorem Builtin.comment_moved (b : Builtin) :
    b.comment (d.moved (byteLength front)) (front ++ y) = b.comment d y := by
  rw [comment, comment, d.text_moved, d.after_moved]
  rfl

end Moved

theorem Inert.redeclarations {x : List Char} (inert : Inert x) (y : List Char) :
    redeclarations (x ++ y) = (redeclarations y).map (Edit.moved (byteLength x)) := by
  rw [Shader.redeclarations, inert.declarations, List.filterMap_map, Shader.redeclarations,
    List.map_filterMap]
  refine List.filterMap_congr fun d _ => ?_
  rw [Function.comp_apply, Option.map_map]
  refine congrArg (Option.map · (Builtin.ofName? d.name)) (funext fun b => ?_)
  rw [Function.comp_apply, Builtin.comment_moved]
  rfl

theorem Inert.neutralize {x : List Char} (inert : Inert x) (y : List Char) :
    neutralize (x ++ y) = x ++ neutralize y := by
  rw [Shader.neutralize, Shader.neutralize, inert.redeclarations, splice_past]
  cases splice 0 y (Shader.redeclarations y) <;> rfl

/-- A mark other than an equals sign comes first after blanks and words. -/
def unassigned (s : List Char) : Bool :=
  (s.dropWhile fun c => isBlank c || isWord c).head?.any (· ≠ '=')

theorem unassigned_append {x : List Char} (marked : unassigned x) (y : List Char) :
    unassigned (x ++ y) := by
  obtain ⟨c, first, other⟩ := (Option.any_eq_true _ _).mp marked
  have stops : (x.dropWhile fun c => isBlank c || isWord c) ≠ [] := by
    intro none
    rw [none] at first
    cases first
  rw [unassigned, List.dropWhile_append, if_neg (by simpa using stops),
    List.head?_append_of_ne_nil _ stops]
  exact marked

/-- A declaration with an initializer has its equals sign right after blanks and words. -/
theorem zeroDeclaration?_unassigned {s : List Char} (shape : FloatShape) (marked : unassigned s) :
    zeroDeclaration? shape s = none := by
  rw [Option.eq_none_iff_forall_ne_some]
  rintro ⟨text, rest⟩ found
  obtain ⟨z, same, _⟩ := zeroDeclaration?_some.mp found
  have parts : s = (z.type ++ z.gap ++ z.name ++ z.beforeMark) ++
      '=' :: (z.beforeZero ++ '0' :: (z.beforeEnd ++ [';']) ++ rest) := by
    rw [same]
    simp [ZeroForm.old, ZeroForm.tail]
  have inside : ∀ c ∈ z.type ++ z.gap ++ z.name ++ z.beforeMark, isBlank c || isWord c := by
    intro c member
    simp only [List.mem_append, or_assoc] at member
    rw [Bool.or_eq_true]
    rcases member with type | gap | name | mark
    · exact .inr (z.type_word c type)
    · exact .inl (z.gap_blank c gap)
    · exact .inr (z.name_word c name)
    · exact .inl (z.mark_blank c mark)
  have stops : ∀ c ∈ ('=' :: (z.beforeZero ++ '0' :: (z.beforeEnd ++ [';']) ++ rest)).head?,
      (isBlank c || isWord c) = false := by
    intro c first
    cases first
    decide
  rw [unassigned, parts, dropWhile_append_stop inside stops] at marked
  cases marked

def differ (s t : List Char) : Bool := !s.isPrefixOf t && !t.isPrefixOf s

/-- A text in which nothing that begins like a type of floats is given a value. -/
def valueless (x : List Char) : Bool :=
  x.tails.all fun s => s.isEmpty || differ "float".toList s || unassigned s

theorem zeroDeclaration?_differ {s : List Char} (shape : FloatShape)
    (other : differ "float".toList s) (y : List Char) :
    zeroDeclaration? shape (s ++ y) = none := by
  rw [Option.eq_none_iff_forall_ne_some]
  rintro ⟨text, rest⟩ found
  obtain ⟨z, same, _⟩ := zeroDeclaration?_some.mp found
  have begins : "float".toList <+: s ++ y := ⟨_, by rw [same, z.old_append]⟩
  simp only [differ, Bool.and_eq_true, Bool.not_eq_true', Bool.eq_false_iff, ne_eq,
    List.isPrefixOf_iff_prefix] at other
  rcases List.prefix_or_prefix_of_prefix begins (List.prefix_append s y) with longer | shorter
  · exact other.1 longer
  · exact other.2 shorter

theorem coerce_valueless {x : List Char} (plain : valueless x) (shape : FloatShape)
    (afterWord : Bool) (y : List Char) :
    coerce shape afterWord (x ++ y) = x ++ coerce shape (wordAfter afterWord x) y := by
  induction x generalizing afterWord with
  | nil => rfl
  | cons c x ih =>
    rw [valueless, List.tails_cons, List.all_cons, Bool.and_eq_true, Bool.or_eq_true] at plain
    have passes : zeroDeclaration? shape (c :: (x ++ y)) = none := by
      rcases plain.1 with other | marked
      · exact zeroDeclaration?_differ shape other y
      · exact zeroDeclaration?_unassigned shape (unassigned_append marked y)
    rw [List.cons_append, coerce_step (.inr passes), ih plain.2]
    rfl

theorem header_plain : ':' ∉ header ∧ valueless header := by
  rw [header, preamble, unlines_toList]
  simp only [List.flatMap_cons, String.reduceToList]
  decide +kernel

theorem coerce_header (shape : FloatShape) (y : List Char) :
    coerce shape false (header ++ y) = header ++ coerce shape false y := by
  have fresh : wordAfter false header = false := by
    rw [header, wordAfter_append]
    rfl
  rw [coerce_valueless header_plain.2, fresh]

theorem body_header (y : List Char) : body (header ++ y) = header ++ body y := by
  rw [body, body, stripSemantics_behind header_plain.1, header_inert.neutralize, coerceZeros,
    coerceZeros, coerce_header, coerce_header]

theorem assemble_assemble (x : List Char) :
    assemble (assemble x) = header ++ (header ++ body (body x)) := by
  rw [assemble_eq, assemble_eq, body_header]

theorem assemble_ne (y : List Char) : assemble y ≠ y := by
  intro same
  rw [assemble_eq] at same
  have again : assemble (body y) = body y := by
    conv_rhs => rw [← same, body_header]
    exact assemble_eq (body y)
  have shorter : (body y).length < y.length := by
    conv_rhs => rw [← same, List.length_append]
    have wide : 0 < header.length :=
      List.length_pos_of_ne_nil (List.append_ne_nil_of_right_ne_nil _ (List.cons_ne_nil '\n' []))
    omega
  exact assemble_ne (body y) again
termination_by y.length

/-- A program that is assembled again begins with two preambles, and is not the program. -/
theorem assembled_twice (x : List Char) :
    (preamble.toList ++ '\n' :: (preamble.toList ++ ['\n'])) <+: assemble (assemble x) ∧
      assemble (assemble x) ≠ assemble x := by
  constructor
  · have front : preamble.toList ++ '\n' :: (preamble.toList ++ ['\n']) = header ++ header := by
      rw [List.append_cons, ← header]
    rw [front, assemble_assemble, ← List.append_assoc]
    exact List.prefix_append (header ++ header) (body (body x))
  · exact assemble_ne (assemble x)

end ShaderBench.Shader
