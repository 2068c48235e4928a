import ShaderBench.Proofs.Shader.Declarations
import ShaderBench.Shader.Assembly
/-
What two of the passes replace in a document: the semantics, which go, and the declarations of the
host's inputs, which become comments with the same line breaks.
-/
namespace ShaderBench.Shader
open Text

theorem afterWord?_suffix {word s rest : List Char} (found : afterWord? word s = some rest) :
    rest <:+ s := by
  induction word generalizing s with
  | nil =>
    cases found
    exact List.suffix_refl _
  | cons w word ih =>
    cases s with
    | nil => cases found
    | cons c s =>
      unfold afterWord? at found
      split at found
      · exact (ih found).trans (List.suffix_cons c s)
      · cases found

theorem afterSemantic?_suffix {s rest : List Char} (found : afterSemantic? s = some rest) :
    rest <:+ s := by
  unfold afterSemantic? at found
  split at found
  · rename_i t
    split at found
    · rename_i after word
      obtain ⟨name, _, here⟩ := List.exists_of_findSome?_eq_some word
      split at found
      · cases found
        have digits : after.dropWhile isDecimal <:+ after := List.dropWhile_suffix isDecimal
        have word : after <:+ t.dropWhile isBlank := afterWord?_suffix here
        have blanks : t.dropWhile isBlank <:+ t := List.dropWhile_suffix isBlank
        exact ((digits.trans word).trans blanks).trans (List.suffix_cons ':' t)
      · cases found
    · cases found
  · cases found

def upTo (rest s : List Char) : List Char := s.take (s.length - rest.length)

theorem upTo_append {rest s : List Char} (suffix : rest <:+ s) : upTo rest s ++ rest = s := by
  obtain ⟨front, same⟩ := suffix
  subst same
  simp [upTo]

@[grind =] def semanticPieces : List Char → List Piece
  | [] => []
  | c :: s =>
    match _found : afterSemantic? (c :: s) with
    | some rest => .swapped (upTo rest (c :: s)) [] :: semanticPieces rest
    | none => .kept c :: semanticPieces s
termination_by s => s.length
decreasing_by
  · exact afterSemantic?_shorter _found
  · simp

theorem original_semanticPieces (s : List Char) : original (semanticPieces s) = s := by
  induction s using semanticPieces.induct with
  | case1 => simp [semanticPieces]
  | case2 c s rest found ih =>
    rw [semanticPieces, found, original_cons, ih]
    exact upTo_append (afterSemantic?_suffix found)
  | case3 c s none ih =>
    rw [semanticPieces, none, original_cons, ih]
    rfl

theorem rewritten_semanticPieces (s : List Char) :
    rewritten (semanticPieces s) = stripSemantics s := by
  induction s using semanticPieces.induct with
  | case1 => simp [semanticPieces, stripSemantics]
  | case2 c s rest found ih =>
    rw [semanticPieces, found, rewritten_cons, ih, stripSemantics, found]
    rfl
  | case3 c s none ih =>
    rw [semanticPieces, none, rewritten_cons, ih, stripSemantics, none]
    rfl

theorem semanticPieces_new {s old new : List Char}
    (listed : .swapped old new ∈ semanticPieces s) : new = [] := by
  induction s using semanticPieces.induct with
  | case1 => simp [semanticPieces] at listed
  | case2 c s rest found ih =>
    rw [semanticPieces, found] at listed
    rcases List.mem_cons.mp listed with here | later
    · cases here
      rfl
    · exact ih later
  | case3 c s none ih =>
    rw [semanticPieces, none] at listed
    rcases List.mem_cons.mp listed with here | later
    · cases here
    · exact ih later

theorem semanticPieces_shrinks (document : List Char) :
    ∀ p ∈ semanticPieces document, newlines p.new ≤ newlines p.old := by
  intro p listed
  cases p with
  | kept c => exact Nat.le_refl _
  | swapped old new =>
    have none := semanticPieces_new listed
    subst none
    exact Nat.zero_le _

theorem semanticPieces_keepsBreaks_iff (document : List Char) :
    KeepsBreaks (semanticPieces document) ↔ Unbroken (semanticPieces document) := by
  apply keepsBreaks_iff_unbroken
  intro old new listed
  rw [semanticPieces_new listed]
  rfl

theorem newlines_stripSemantics_le (document : List Char) :
    newlines (stripSemantics document) ≤ newlines document := by
  have fewer := newlines_rewritten_le (semanticPieces_shrinks document)
  rwa [rewritten_semanticPieces, original_semanticPieces] at fewer

theorem map_filterMap_sublist {α β γ : Type} {f : α → Option β} {g : β → γ} {h : α → γ}
    (same : ∀ a b, f a = some b → g b = h a) (l : List α) :
    ((l.filterMap f).map g).Sublist (l.map h) := by
  induction l with
  | nil => exact List.Sublist.slnil
  | cons a l ih =>
    cases found : f a with
    | none =>
      rw [List.filterMap_cons_none found]
      exact ih.cons (h a)
    | some b =>
      rw [List.filterMap_cons_some found, List.map_cons, List.map_cons, same a b found]
      exact ih.cons_cons (h a)

theorem redeclarations_apart (document : List Char) :
    Apart 0 document ((redeclarations document).map Edit.span) := by
  apply (declarations_apart document).sublist
  apply map_filterMap_sublist
  intro d e made
  obtain ⟨b, _, same⟩ := Option.map_eq_some_iff.mp made
  subst same
  rfl

/-- A document as its declarations of the host's inputs, with their comments, and what stays. -/
def redeclaredPieces (document : List Char) : List Piece :=
  edited 0 document (redeclarations document)

theorem original_redeclaredPieces (document : List Char) :
    original (redeclaredPieces document) = document :=
  original_edited (redeclarations_apart document)

theorem rewritten_redeclaredPieces (document : List Char) :
    rewritten (redeclaredPieces document) = neutralize document := by
  rw [neutralize, splice_edited (redeclarations_apart document)]
  rfl

theorem Declaration.text_between {d : Declaration} {before old after : List Char}
    (first : d.start = byteLength before) (last : d.stop = d.start + byteLength old) :
    d.text (before ++ old ++ after) = old := by
  rw [Declaration.text, last, first, slice?_append]
  rfl

theorem Declaration.after_between {d : Declaration} {before old after : List Char}
    (first : d.start = byteLength before) (last : d.stop = d.start + byteLength old) :
    d.after (before ++ old ++ after) = after := by
  have place : d.stop = byteLength (before ++ old) := by rw [last, first, byteLength_append]
  rw [Declaration.after, place, cutAt?_append]
  rfl

/-- The text of a comment with so many line breaks, before a given text: one between two marks, and
    the line breaks after it, or one to the end of the line where nothing else stands there. -/
inductive CommentText (after : List Char) : Nat → List Char → Prop
  | block {inner : List Char} (breaks : Nat) (open' : '*' ∉ inner) (unbroken : '\n' ∉ inner) :
      CommentText after breaks (['/', '*'] ++ (inner ++ (['*', '/'] ++ blankLines breaks)))
  | line {inner : List Char} (unbroken : '\n' ∉ inner) (alone : (trim (restOfLine after)).isEmpty) :
      CommentText after 0 (['/', '/'] ++ inner)

theorem CommentText.newlines {after new : List Char} {breaks : Nat}
    (comment : CommentText after breaks new) : newlines new = breaks := by
  cases comment with
  | block breaks open' unbroken =>
    simp [newlines_append, newlines_blankLines, newlines_eq_zero unbroken]
  | line unbroken alone =>
    have marks : Text.newlines ['/', '/'] = 0 := by decide
    rw [newlines_append, newlines_eq_zero unbroken, marks]

theorem name_clean {name : List Char} (named : ∀ c ∈ name, continuesName c) :
    '\n' ∉ name ∧ '*' ∉ name :=
  ⟨fun broken => absurd (named _ broken) (by decide), fun star => absurd (named _ star) (by decide)⟩

theorem Builtin.comment_text {d : Declaration} (named : ∀ c ∈ d.name.toList, continuesName c)
    (b : Builtin) (document : List Char) :
    CommentText (d.after document) (newlines (d.text document)) (b.comment d document) := by
  have name := name_clean named
  have type : '\n' ∉ b.typeName.toList ∧ '*' ∉ b.typeName.toList := by cases b <;> decide
  have clean : '\n' ∉ (s!"[Built-in] uniform {b.typeName} {d.name};").toList ∧
      '*' ∉ (s!"[Built-in] uniform {b.typeName} {d.name};").toList := by
    simp [toString, name, type]
  unfold Builtin.comment
  dsimp only
  generalize s!"[Built-in] uniform {b.typeName} {d.name};" = summary at clean ⊢
  split
  · rename_i alone
    simp only [Bool.and_eq_true, decide_eq_true_eq] at alone
    have line : CommentText (d.after document) 0 (['/', '/'] ++ ' ' :: summary.toList) :=
      .line (by simpa using clean.1) alone.1
    have same : (s!"// {summary}").toList ++ blankLines 0 = ['/', '/'] ++ ' ' :: summary.toList := by
      simp [toString, blankLines]
    rw [alone.2, same]
    exact line
  · have block : CommentText (d.after document) (newlines (d.text document))
        (['/', '*'] ++ (' ' :: (summary.toList ++ [' ']) ++
          (['*', '/'] ++ blankLines (newlines (d.text document))))) :=
      .block _ (by simpa using clean.2) (by simpa using clean.1)
    have same : (s!"/* {summary} */").toList ++ blankLines (newlines (d.text document)) =
        ['/', '*'] ++ (' ' :: (summary.toList ++ [' ']) ++
          (['*', '/'] ++ blankLines (newlines (d.text document)))) := by
      simp [toString]
    rw [same]
    exact block

theorem redeclarations_comment {document : List Char} {e : Edit}
    (listed : e ∈ redeclarations document) {before old after : List Char}
    (text : document = before ++ old ++ after) (first : e.start = byteLength before)
    (last : e.stop = e.start + byteLength old) : CommentText after (newlines old) e.text := by
  obtain ⟨d, declared, made⟩ := List.mem_filterMap.mp listed
  obtain ⟨b, _, same⟩ := Option.map_eq_some_iff.mp made
  subst same
  have comment := b.comment_text (declarations_name declared) document
  have inside : d.text document = old := text ▸ Declaration.text_between first last
  have behind : d.after document = after := text ▸ Declaration.after_between first last
  rwa [inside, behind] at comment

theorem redeclaredPieces_keepsBreaks (document : List Char) :
    KeepsBreaks (redeclaredPieces document) := by
  apply keepsBreaks_edited (redeclarations_apart document)
  intro e listed before old after text first last
  exact (redeclarations_comment listed text (first.trans (Nat.zero_add _)) last).newlines

theorem newlines_neutralize (document : List Char) :
    newlines (neutralize document) = newlines document := by
  have same := (redeclaredPieces_keepsBreaks document).newlines
  rwa [rewritten_redeclaredPieces, original_redeclaredPieces] at same

end ShaderBench.Shader
