import ShaderBench.Proofs.Gpu.Lowering
import ShaderBench.Proofs.Shader.Redeclarations
/-
What two passes leave of a text: outside the declarations that become comments every character
stays, in its order and on its line.
-/
namespace ShaderBench.Gpu
open Shader Text

def swappedSpans : Nat → List Piece → List (Nat × Nat)
  | _, [] => []
  | position, .kept c :: ps => swappedSpans (position + c.utf8Size) ps
  | position, .swapped old _ :: ps =>
    (position, position + byteLength old) :: swappedSpans (position + byteLength old) ps

/-- In a text that begins at a position just the given stretches are replaced, each by a comment with
    its line breaks, and whatever is before a place has as many line breaks as it had. -/
structure Commentary (position : Nat) (spans : List (Nat × Nat)) (ps : List Piece) : Prop where
  spans : swappedSpans position ps = spans
  comments : ∀ front old new back, ps = front ++ .swapped old new :: back →
    CommentText (original back) (newlines old) new
  lines : ∀ front back, ps = front ++ back →
    newlines (rewritten front) = newlines (original front)

theorem swappedSpans_untouched (position : Nat) (s : List Char) (ps : List Piece) :
    swappedSpans position (untouched s ++ ps) = swappedSpans (position + byteLength s) ps := by
  induction s generalizing position with
  | nil => rfl
  | cons c s ih =>
    rw [byteLength_cons, ← Nat.add_assoc]
    exact ih (position + c.utf8Size)

theorem swappedSpans_edited {position : Nat} {s : List Char} {es : List Edit}
    (apart : Apart position s (es.map Edit.span)) :
    swappedSpans position (edited position s es) = es.map Edit.span := by
  induction es generalizing position s with
  | nil =>
    have none := swappedSpans_untouched position s []
    rw [List.append_nil] at none
    exact none
  | cons e es ih =>
    obtain ⟨gap, old, after, text, first, last, tail⟩ := apart
    rw [text, edited_cons es first last, swappedSpans_untouched, swappedSpans, ← first, ← last,
      ih tail]
    rfl

theorem commentary_edited {position : Nat} {s : List Char} {es : List Edit}
    (apart : Apart position s (es.map Edit.span))
    (each : ∀ e ∈ es, ∀ before old after, s = before ++ old ++ after →
      e.start = position + byteLength before → e.stop = e.start + byteLength old →
      CommentText after (newlines old) e.text) :
    Commentary position (es.map Edit.span) (edited position s es) := by
  have comments : ∀ front old new back, edited position s es = front ++ .swapped old new :: back →
      CommentText (original back) (newlines old) new := by
    intro front old new back parts
    obtain ⟨e, listed, text, same, start, stop⟩ := edited_swapped apart parts
    exact same ▸ each e listed _ old _ text start stop
  have keeps : KeepsBreaks (edited position s es) :=
    keepsBreaks_edited apart fun e listed before old after text start stop =>
      (each e listed before old after text start stop).newlines
  refine ⟨swappedSpans_edited apart, comments, fun front back parts => ?_⟩
  have early : KeepsBreaks front :=
    fun p listed => keeps p (parts ▸ List.mem_append_left back listed)
  exact early.newlines

theorem commentary_neutralize (source : List Char) :
    Commentary 0 ((redeclared source).map Declaration.span) (redeclaredPieces source) := by
  rw [← redeclarations_span]
  refine commentary_edited (redeclarations_apart source) ?_
  intro e listed before old after text first last
  exact redeclarations_comment listed text (first.trans (Nat.zero_add _)) last

theorem commentary_lower (front back : List Char) :
    let found := members (byteLength front) (front ++ back)
    Commentary (byteLength front) (found.map fun m => m.declaration.span)
      (edited (byteLength front) back (comments (front ++ back) found)) := by
  intro found
  rw [← comments_span (front ++ back)]
  exact commentary_edited (comments_apart front back)
    fun e listed before old after text first last => comments_comment listed text first last

theorem lower_ok {program : List Char} {lowered : Lowered} (made : lower program = .ok lowered) :
    ∃ before after, splitAround? parameterMark.toList program = some (before, after) ∧
      lowered.glsl = before ++ (lowered.layout.declaration blockSet blockBinding).toList ++
        rewritten (edited (byteLength (before ++ parameterMark.toList)) after
          (comments program (members (byteLength (before ++ parameterMark.toList)) program))) := by
  cases split : splitAround? parameterMark.toList program with
  | none => simp [lower, split] at made
  | some parts =>
    obtain ⟨before, after⟩ := parts
    have pieces := (loweredPieces_split split).1
    rw [lower_eq split] at made
    refine ⟨before, after, rfl, ?_⟩
    rw [byteLength_append]
    generalize byteLength before + byteLength parameterMark.toList = position at made pieces ⊢
    cases line : bodyLine? program (blockOf (members position program)) with
    | error e =>
      rw [line] at made
      cases made
    | ok bodyLine =>
      rw [line] at made
      cases made
      rw [pieces, rewritten_append, rewritten_untouched, rewritten_cons, List.append_assoc]
      rfl

/-- What a program is lowered to has the block in the place of the mark. Behind it the declarations of
    the members are comments and all else stays, every line further down by the lines of the block. -/
def KeptBehindBlock (program : List Char) (lowered : Lowered) : Prop :=
  let mark := parameterMark.toList
  let block := (lowered.layout.declaration blockSet blockBinding).toList
  ∃ before ps, splitAround? mark program = some (before, original ps) ∧
    program = before ++ mark ++ original ps ∧ lowered.glsl = before ++ block ++ rewritten ps ∧
    Commentary (byteLength (before ++ mark))
      ((members (byteLength (before ++ mark)) program).map fun m => m.declaration.span) ps ∧
    ∀ front back, ps = front ++ back →
      newlines (before ++ block ++ rewritten front) =
        newlines (before ++ mark ++ original front) + newlines block

/-- What the two passes leave of a text: of a source where the host's inputs are not declared any
    more, and of a program that is lowered. -/
theorem text_kept (source program : List Char) :
    (∃ ps, original ps = source ∧ rewritten ps = neutralize source ∧
      Commentary 0 ((redeclared source).map Declaration.span) ps) ∧
    ∀ lowered, lower program = .ok lowered → KeptBehindBlock program lowered := by
  refine ⟨⟨redeclaredPieces source, original_redeclaredPieces source,
    rewritten_redeclaredPieces source, commentary_neutralize source⟩, fun lowered made => ?_⟩
  obtain ⟨before, after, split, glsl⟩ := lower_ok made
  have text := splitAround?_eq split
  have kept := commentary_lower (before ++ parameterMark.toList) after
  have apart := comments_apart (before ++ parameterMark.toList) after
  rw [← text] at kept apart
  have same := original_edited apart
  refine ⟨before, _, same.symm ▸ split, same.symm ▸ text, glsl, kept, fun front back parts => ?_⟩
  have mark : newlines parameterMark.toList = 0 := by decide
  have lines := kept.lines front back parts
  simp only [newlines_append, mark, lines]
  omega

def gainDeclaredTwice : List Char :=
  "// @user-params\nuniform float\n  gain; uniform float gain = 2.0;\r\nfloat x;".toList

def gainLowered : Lowered :=
  ⟨("layout(set = 0, binding = 1) uniform Params \x7b\n    float gain;\n\x7d;\n" ++
    "/* gain (redeclared) */\n /* gain -> Params */\r\nfloat x;").toList,
    ⟨[⟨"gain", .float, 0⟩]⟩, none⟩

theorem gain_text_kept : lower gainDeclaredTwice = .ok gainLowered ∧
    KeptBehindBlock gainDeclaredTwice gainLowered := by
  have split : splitAround? parameterMark.toList gainDeclaredTwice =
      some ([], gainDeclaredTwice.drop 15) := by decide +kernel
  have glsl : rewritten (loweredPieces gainDeclaredTwice) = gainLowered.glsl := by decide +kernel
  have layout : layoutOf (members (byteLength [] + byteLength parameterMark.toList)
      gainDeclaredTwice) = gainLowered.layout := by decide +kernel
  have first : gainDeclaredTwice = '/' :: gainDeclaredTwice.tail := by decide +kernel
  have line : ∀ block, bodyLine? gainDeclaredTwice block = .ok none := by
    intro block
    rw [first]
    exact bodyLine?_other (by decide) _ block
  have made : lower gainDeclaredTwice = .ok gainLowered := by
    have whole : ∀ l : Lowered, l.bodyLine = none → (⟨l.glsl, l.layout, none⟩ : Lowered) = l := by
      intro l bare
      rw [← bare]
    rw [lower_eq split, glsl, layout, line]
    exact congrArg Except.ok (whole gainLowered rfl)
  exact ⟨made, (text_kept [] gainDeclaredTwice).2 gainLowered made⟩

end ShaderBench.Gpu
