import ShaderBench.Gpu.Compile
import ShaderBench.Proofs.Shader.Passes
import ShaderBench.Proofs.Shader.Preamble
/-
Lowering by pieces: the block in the place of the mark, the comments in the places of the members'
declarations, and the text that stays. A program made of a document can always be lowered.
-/
namespace ShaderBench.Gpu
open Shader Text

theorem comments_span (program : List Char) (ms : List Member) :
    (comments program ms).map Edit.span = ms.map fun m => m.declaration.span := by
  induction ms with
  | nil => rfl
  | cons m ms ih =>
    simp only [comments, List.map_cons, ih]
    rfl

theorem member?_some {position : Nat} {d : Declaration} {m : Member}
    (found : member? position d = some m) : m.declaration = d ∧ position ≤ d.start := by
  unfold member? at found
  split at found
  · rename_i test
    obtain ⟨type, _, same⟩ := Option.map_eq_some_iff.mp found
    subst same
    simp only [Bool.and_eq_true, decide_eq_true_eq] at test
    exact ⟨rfl, test.1⟩
  · cases found

theorem members_declared {position : Nat} {program : List Char} {m : Member}
    (listed : m ∈ members position program) :
    m.declaration ∈ declarations program ∧ position ≤ m.declaration.start := by
  obtain ⟨d, declared, found⟩ := List.mem_filterMap.mp listed
  obtain ⟨same, far⟩ := member?_some found
  rw [same]
  exact ⟨declared, far⟩

theorem comments_apart (front back : List Char) :
    Apart (byteLength front) back
      ((comments (front ++ back) (members (byteLength front) (front ++ back))).map Edit.span) := by
  rw [comments_span, ← Nat.zero_add (byteLength front)]
  apply Apart.past
  · apply (declarations_apart (front ++ back)).sublist
    apply map_filterMap_sublist
    intro d m found
    rw [(member?_some found).1]
  · intro span listed
    obtain ⟨m, member, same⟩ := List.mem_map.mp listed
    subst same
    exact (members_declared member).2

theorem comments_block {program : List Char} {ms : List Member}
    (named : ∀ m ∈ ms, ∀ c ∈ m.declaration.name.toList, continuesName c) {e : Edit}
    (listed : e ∈ comments program ms) :
    ∃ m ∈ ms, e.span = m.declaration.span ∧ ∃ inner, '*' ∉ inner ∧ '\n' ∉ inner ∧
      e.text = ['/', '*'] ++ (inner ++ (['*', '/'] ++
        blankLines (newlines (m.declaration.text program)))) := by
  induction ms with
  | nil => cases listed
  | cons m ms ih =>
    rw [comments] at listed
    rcases List.mem_cons.mp listed with here | later
    · subst here
      have name := name_clean (named m List.mem_cons_self)
      refine ⟨m, List.mem_cons_self, rfl, ?_⟩
      dsimp only
      split
      · refine ⟨' ' :: (m.declaration.name.toList ++ " (redeclared) ".toList), ?_, ?_, ?_⟩
        · simp [name]
        · simp [name]
        · simp [toString]
      · refine ⟨' ' :: (m.declaration.name.toList ++ " -> Params ".toList), ?_, ?_, ?_⟩
        · simp [name]
        · simp [name]
        · simp [toString]
    · obtain ⟨m', member, span, block⟩ :=
        ih (fun m' member => named m' (List.mem_cons_of_mem m member)) later
      exact ⟨m', List.mem_cons_of_mem m member, span, block⟩

theorem comments_comment {front back : List Char} {e : Edit}
    (listed : e ∈ comments (front ++ back) (members (byteLength front) (front ++ back)))
    {before old after : List Char} (text : back = before ++ old ++ after)
    (first : e.start = byteLength front + byteLength before)
    (last : e.stop = e.start + byteLength old) : CommentText after (newlines old) e.text := by
  obtain ⟨m, member, span, inner, open', unbroken, comment⟩ :=
    comments_block (fun m member => declarations_name (members_declared member).1) listed
  simp only [Edit.span, Declaration.span, Prod.mk.injEq] at span
  have whole : front ++ back = front ++ before ++ old ++ after := by
    rw [text]
    simp
  have inside : m.declaration.text (front ++ back) = old := by
    rw [whole, Declaration.text_between]
    · rw [byteLength_append, ← span.1, first]
    · rw [← span.1, ← span.2, last]
  rw [comment, inside]
  exact .block _ open' unbroken

theorem comments_keepsBreaks (front back : List Char) :
    KeepsBreaks (edited (byteLength front) back
      (comments (front ++ back) (members (byteLength front) (front ++ back)))) := by
  apply keepsBreaks_edited (comments_apart front back)
  intro e listed before old after text first last
  exact (comments_comment listed text first last).newlines

def blockOf (ms : List Member) : List Char :=
  ((layoutOf ms).declaration blockSet blockBinding).toList

/-- A program as its mark, with the block, its members' declarations, with their comments, and what
    stays. -/
def loweredPieces (program : List Char) : List Piece :=
  match splitAround? parameterMark.toList program with
  | none => untouched program
  | some (before, after) =>
    let position := byteLength before + byteLength parameterMark.toList
    let found := members position program
    untouched before ++ .swapped parameterMark.toList (blockOf found) ::
      edited position after (comments program found)

/-- A program with a mark is lowered to what its pieces make of it, unless it ends in its preamble. -/
theorem lower_eq {program before after : List Char}
    (split : splitAround? parameterMark.toList program = some (before, after)) :
    let found := members (byteLength before + byteLength parameterMark.toList) program
    lower program = (bodyLine? program (blockOf found)).map fun bodyLine =>
      ⟨rewritten (loweredPieces program), layoutOf found, bodyLine⟩ := by
  have text := splitAround?_eq split
  have apart := comments_apart (before ++ parameterMark.toList) after
  rw [byteLength_append, ← text] at apart
  have spliced := splice_edited apart
  unfold lower loweredPieces
  simp only [split, spliced, rewritten_append, rewritten_untouched, rewritten_cons]
  simp only [blockOf, Piece.new, List.append_assoc]

theorem assemble_mark (document : List Char) :
    ∃ before after, header = before ++ parameterMark.toList ++ after ++ ['\n'] ∧
      splitAround? parameterMark.toList (assemble document) =
        some (before, after ++ '\n' :: body document) := by
  obtain ⟨front, back, text⟩ := preamble_mark
  obtain ⟨⟨before, after⟩, found⟩ := Option.isSome_iff_exists.mp (splitAround?_isSome text)
  refine ⟨before, after, ?_, ?_⟩
  · rw [header, splitAround?_eq found]
  · exact splitAround?_append found ('\n' :: body document)

theorem mark_early {before after : List Char}
    (text : header = before ++ parameterMark.toList ++ after ++ ['\n']) :
    byteLength before + byteLength parameterMark.toList ≤ byteLength header := by
  rw [text]
  simp only [byteLength_append]
  omega

theorem bodyLine?_assemble (document block : List Char) :
    bodyLine? (assemble document) block = .ok (some (newlines header + newlines block + 1)) := by
  have first : preamble.toList.isPrefixOf (assemble document) := by
    rw [assemble]
    exact List.isPrefixOf_iff_prefix.mpr (List.prefix_append _ _)
  have one : byteLength ['\n'] = 1 := rfl
  have length : byteLength preamble.toList + 1 = byteLength header := by
    rw [header, byteLength_append, one]
  have cut : cutAt? (byteLength preamble.toList + 1) (assemble document) =
      some (header, body document) := by
    rw [length, assemble_eq]
    exact cutAt?_append header (body document)
  rw [bodyLine?, if_pos first, cut]

theorem bodyLine?_other {c : Char} (other : c ≠ '#') (program block : List Char) :
    bodyLine? (c :: program) block = .ok none := by
  obtain ⟨rest, same⟩ := preamble_begins
  rw [bodyLine?, same, if_neg]
  simp [List.isPrefixOf, Ne.symm other]

def membersOf (document : List Char) : List Member :=
  (declarations (body document)).filterMap fun d =>
    member? 0 (d.moved (byteLength header))

theorem members_assemble {position : Nat} (document : List Char)
    (early : position ≤ byteLength header) :
    members position (assemble document) = membersOf document := by
  rw [members, declarations_assemble, List.filterMap_map, membersOf]
  congr 1
  funext d
  have far : position ≤ (d.moved (byteLength header)).start := by
    exact Nat.le_trans early (Nat.le_add_right _ _)
  simp only [Function.comp, member?, far, Nat.zero_le]

theorem lower_assemble (document : List Char) :
    lower (assemble document) = .ok ⟨rewritten (loweredPieces (assemble document)),
      layoutOf (membersOf document),
      some (newlines header + newlines (blockOf (membersOf document)) + 1)⟩ := by
  obtain ⟨before, after, text, split⟩ := assemble_mark document
  have early := mark_early text
  rw [lower_eq split, members_assemble document early, bodyLine?_assemble]
  rfl

theorem parts_of_ok {result : Except LoweringError Lowered} {glsl : List Char} {layout : Layout}
    {first : Nat} (made : result = .ok ⟨glsl, layout, some first⟩) :
    ∃ lowered, result = .ok lowered ∧ lowered.glsl = glsl ∧ lowered.layout = layout ∧
      lowered.bodyLine = some first :=
  ⟨_, made, rfl, rfl, rfl⟩

theorem lowered_parts (document : List Char) :
    ∃ lowered, lower (assemble document) = .ok lowered ∧
      lowered.glsl = rewritten (loweredPieces (assemble document)) ∧
      lowered.layout = layoutOf (membersOf document) ∧
      lowered.bodyLine =
        some (newlines header + newlines (blockOf (membersOf document)) + 1) :=
  parts_of_ok (lower_assemble document)

theorem loweredPieces_split {program before after : List Char}
    (split : splitAround? parameterMark.toList program = some (before, after)) :
    let position := byteLength before + byteLength parameterMark.toList
    let found := members position program
    let back := edited position after (comments program found)
    loweredPieces program =
      untouched before ++ .swapped parameterMark.toList (blockOf found) :: back ∧
        KeepsBreaks back := by
  have keeps := comments_keepsBreaks (before ++ parameterMark.toList) after
  rw [← splitAround?_eq split, byteLength_append] at keeps
  exact ⟨by rw [loweredPieces, split], keeps⟩

/-- In a program made of a document only the block adds line breaks, before the document. -/
theorem loweredPieces_assemble (document : List Char) :
    ∃ before back, loweredPieces (assemble document) =
        untouched before ++ .swapped parameterMark.toList (blockOf (membersOf document)) :: back ∧
      newlines before < newlines header ∧ KeepsBreaks back := by
  obtain ⟨before, after, text, split⟩ := assemble_mark document
  have early := mark_early text
  have one : newlines ['\n'] = 1 := rfl
  have far : newlines before < newlines header := by
    rw [text]
    simp only [newlines_append, one]
    omega
  obtain ⟨pieces, keeps⟩ := loweredPieces_split split
  rw [members_assemble document early] at pieces keeps
  exact ⟨before, _, pieces, far, keeps⟩

theorem lower_ends {document a b : List Char} (text : body document = a ++ b)
    (apart : Apart (byteLength header) a
      ((membersOf document).map fun m => m.declaration.span)) :
    ∃ front first, lower (assemble document) =
      .ok ⟨front ++ b, layoutOf (membersOf document), some first⟩ := by
  obtain ⟨before, after, mark, split⟩ := assemble_mark document
  have early := mark_early mark
  have pieces := (loweredPieces_split split).1
  rw [members_assemble document early] at pieces
  have place : byteLength header =
      byteLength before + byteLength parameterMark.toList + byteLength (after ++ ['\n']) := by
    rw [mark]
    simp only [byteLength_append, Nat.add_assoc]
  rw [place, ← comments_span (assemble document)] at apart
  have ends := edited_upTo (apart.prepend (after ++ ['\n'])) b
  rw [List.append_assoc, List.append_assoc, List.singleton_append, ← text] at ends
  rw [ends] at pieces
  rw [lower_assemble, pieces]
  simp only [rewritten_append, rewritten_cons, rewritten_untouched, ← List.append_assoc]
  exact ⟨_, _, rfl⟩

theorem lower_bare {document : List Char} (bare : membersOf document = []) :
    ∃ front first, lower (assemble document) =
      .ok ⟨front ++ body document, layoutOf [], some first⟩ := by
  obtain ⟨front, first, lowered⟩ := @lower_ends document [] (body document) rfl (by rw [bare]; trivial)
  exact ⟨front, first, by rw [lowered, bare]⟩

end ShaderBench.Gpu
