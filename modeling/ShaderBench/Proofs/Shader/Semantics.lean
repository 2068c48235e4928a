import Mathlib.Data.List.Infix
import ShaderBench.Proofs.Shader.Passes
import ShaderBench.Proofs.Shader.ZeroForm
/-
The form of a semantic. A text begins with one in at most one way, and as a semantic has its colon
at the front and no other, a text is stripped piece by piece from one colon to the next.
-/
namespace ShaderBench.Shader
open Text

/-- The lower case of a letter, with the long s among the ways to write an s. -/
def folded (c : Char) : Char := if c = '\u017f' then 's' else c.toLower

/-- Blanks, a word that is one of the names in any case, and decimal digits. -/
def IsSemantic (s : List Char) : Prop :=
  ∃ blanks word digits, s = blanks ++ (word ++ digits) ∧ (∀ c ∈ blanks, isBlank c) ∧
    word.map folded ∈ semanticNames ∧ ∀ c ∈ digits, isDecimal c

def BeginsSemantic (s : List Char) : Prop :=
  ∃ semantic rest, s = semantic ++ rest ∧ IsSemantic semantic ∧ wordEnds rest

theorem foldsTo_iff {lower c : Char} (short : lower ≠ '\u017f') :
    foldsTo lower c ↔ folded c = lower := by
  unfold foldsTo folded
  by_cases long : c = '\u017f'
  · subst long
    have same : Char.toLower '\u017f' = '\u017f' := by decide
    simp [same, Ne.symm short, eq_comm]
  · simp [long]

theorem afterWord?_some {name s rest : List Char} (short : '\u017f' ∉ name) :
    afterWord? name s = some rest ↔ ∃ word, word.map folded = name ∧ s = word ++ rest := by
  induction name generalizing s with
  | nil =>
    constructor
    · intro found
      cases found
      exact ⟨[], rfl, rfl⟩
    · rintro ⟨word, none, text⟩
      rw [List.map_eq_nil_iff.mp none, List.nil_append] at text
      rw [text]
      rfl
  | cons l name ih =>
    obtain ⟨first, later⟩ := not_or.mp (mt List.mem_cons.mpr short)
    cases s with
    | nil =>
      constructor
      · intro found
        cases found
      · rintro ⟨word, letters, text⟩
        rw [(List.append_eq_nil_iff.mp text.symm).1] at letters
        cases letters
    | cons c s =>
      rw [afterWord?]
      constructor
      · intro found
        split at found
        · rename_i folds
          obtain ⟨word, letters, text⟩ := (ih later).mp found
          refine ⟨c :: word, ?_, by rw [text]; rfl⟩
          rw [List.map_cons, letters, (foldsTo_iff (Ne.symm first)).mp folds]
        · cases found
      · rintro ⟨word, letters, text⟩
        cases word with
        | nil => cases letters
        | cons d word =>
          cases text
          obtain ⟨folds, letters⟩ := List.cons_eq_cons.mp letters
          rw [if_pos ((foldsTo_iff (Ne.symm first)).mpr folds)]
          exact (ih later).mpr ⟨word, letters, rfl⟩

theorem semanticNames_apart :
    ∀ name ∈ semanticNames, ∀ other ∈ semanticNames, name <+: other → name = other := by
  decide

theorem semanticNames_short : ∀ name ∈ semanticNames, '\u017f' ∉ name := by decide

/-- A text begins with a name in one way only, so it does not matter which name is tried first. -/
theorem names_found {s rest : List Char} :
    semanticNames.findSome? (fun name => afterWord? name s) = some rest ↔
      ∃ word, word.map folded ∈ semanticNames ∧ s = word ++ rest := by
  constructor
  · intro found
    obtain ⟨name, listed, here⟩ := List.exists_of_findSome?_eq_some found
    obtain ⟨word, letters, text⟩ := (afterWord?_some (semanticNames_short name listed)).mp here
    exact ⟨word, letters ▸ listed, text⟩
  · rintro ⟨word, listed, text⟩
    have here : afterWord? (word.map folded) s = some rest :=
      (afterWord?_some (semanticNames_short _ listed)).mpr ⟨word, rfl, text⟩
    have some : (semanticNames.findSome? fun name => afterWord? name s).isSome :=
      List.findSome?_isSome_iff.mpr ⟨_, listed, by rw [here]; rfl⟩
    obtain ⟨rest', found⟩ := Option.isSome_iff_exists.mp some
    obtain ⟨name, listed', here'⟩ := List.exists_of_findSome?_eq_some found
    obtain ⟨word', letters, text'⟩ := (afterWord?_some (semanticNames_short _ listed')).mp here'
    -- Of two names at the front of one text one begins with the other.
    have front : word <+: s := ⟨rest, text.symm⟩
    have front' : word' <+: s := ⟨rest', text'.symm⟩
    have same : word.map folded = name := by
      rcases List.prefix_or_prefix_of_prefix front front' with shorter | longer
      · exact semanticNames_apart _ listed _ listed' (letters ▸ shorter.map folded)
      · exact (semanticNames_apart _ listed' _ listed (letters ▸ longer.map folded)).symm
    rw [← same, here] at here'
    rw [found, here']

theorem blankRanges_folded : blankRanges.all fun b => b.2.blt 65 || Nat.blt 90 b.1 := by decide

theorem folded_of_blank {c : Char} (blank : isBlank c) : folded c = c := by
  obtain ⟨b, listed, within⟩ := List.any_eq_true.mp blank
  have apart := List.all_eq_true.mp blankRanges_folded b listed
  simp only [Bool.and_eq_true, decide_eq_true_eq] at within
  simp only [Bool.or_eq_true, Nat.blt_eq] at apart
  have short : c ≠ '\u017f' := by
    intro long
    subst long
    revert blank
    decide
  rw [folded, if_neg short]
  apply dif_neg
  intro upper
  have bounds : 65 ≤ c.toNat ∧ c.toNat ≤ 90 := upper
  omega

theorem semanticNames_solid : ∀ name ∈ semanticNames, name.head?.all fun c => !isBlank c := by
  decide

theorem decimalRanges_words :
    decimalRanges.all fun d =>
      Nat.ble 48 d.1 && d.2.ble 57 ||
        wordRanges.any fun w => Nat.ble 128 d.1 && w.1.ble d.1 && d.2.ble w.2 := by
  decide +kernel

theorem isWord_of_decimal {c : Char} (digit : isDecimal c) : isWord c := by
  obtain ⟨d, listed, within⟩ := List.any_eq_true.mp digit
  have range := List.all_eq_true.mp decimalRanges_words d listed
  simp only [Bool.and_eq_true, decide_eq_true_eq] at within
  rcases (Bool.or_eq_true _ _).mp range with low | high
  · simp only [Bool.and_eq_true, Nat.ble_eq] at low
    have ascii : c.isDigit := by
      simp only [Char.isDigit, Bool.and_eq_true, decide_eq_true_eq]
      exact ⟨low.1.trans within.1, within.2.trans low.2⟩
    have below : c.toNat < 128 := by omega
    rw [isWord, if_pos below, isAsciiWord, Char.isAlphanum, ascii, Bool.or_true, Bool.true_or]
  · obtain ⟨w, listed', around⟩ := List.any_eq_true.mp high
    simp only [Bool.and_eq_true, Nat.ble_eq] at around
    have above : ¬ c.toNat < 128 := by omega
    rw [isWord, if_neg above]
    apply List.any_eq_true.mpr
    refine ⟨w, listed', ?_⟩
    simp only [Bool.and_eq_true, decide_eq_true_eq]
    omega

theorem wordEnds_stops {s : List Char} (ends : wordEnds s) : ∀ c ∈ s.head?, isDecimal c = false := by
  intro c first
  cases s with
  | nil => cases first
  | cons d s =>
    cases first
    by_contra digit
    have word := isWord_of_decimal (Bool.not_eq_false _ ▸ digit)
    rw [wordEnds, word] at ends
    cases ends

theorem afterSemantic?_some {s rest : List Char} :
    afterSemantic? (':' :: s) = some rest ↔
      ∃ semantic, s = semantic ++ rest ∧ IsSemantic semantic ∧ wordEnds rest := by
  rw [afterSemantic?]
  constructor
  · intro found
    split at found
    · rename_i after named
      obtain ⟨word, listed, text⟩ := names_found.mp named
      split at found
      · rename_i ends
        cases found
        refine ⟨s.takeWhile isBlank ++ (word ++ after.takeWhile isDecimal), ?_, ?_, ends⟩
        · rw [List.append_assoc, List.append_assoc, List.takeWhile_append_dropWhile, ← text,
            List.takeWhile_append_dropWhile]
        · exact ⟨_, _, _, rfl, takeWhile_all isBlank s, listed, takeWhile_all isDecimal after⟩
      · cases found
    · cases found
  · rintro ⟨semantic, text, ⟨blanks, word, digits, parts, blank, listed, decimal⟩, ends⟩
    -- The parts are the longest ones: no name begins with a blank, and no word ends before a digit.
    have stops : ∀ c ∈ (word ++ (digits ++ rest)).head?, isBlank c = false := by
      intro c first
      cases word with
      | nil => exact absurd listed (by decide)
      | cons d word =>
        cases first
        have solid : (!isBlank (folded c)) = true := semanticNames_solid _ listed
        by_contra blank
        rw [folded_of_blank (Bool.not_eq_false _ ▸ blank), Bool.not_eq_true'] at solid
        exact blank solid
    have named := names_found.mpr ⟨word, listed, (rfl : word ++ (digits ++ rest) = _)⟩
    rw [text, parts, List.append_assoc, List.append_assoc, dropWhile_append_stop blank stops, named]
    simp only
    rw [dropWhile_append_stop decimal (wordEnds_stops ends), if_pos ends]

theorem beginsSemantic_iff {s : List Char} :
    BeginsSemantic s ↔ ∃ rest, afterSemantic? (':' :: s) = some rest := by
  constructor
  · rintro ⟨semantic, rest, here⟩
    exact ⟨rest, afterSemantic?_some.mpr ⟨semantic, here⟩⟩
  · rintro ⟨rest, found⟩
    obtain ⟨semantic, here⟩ := afterSemantic?_some.mp found
    exact ⟨semantic, rest, here⟩

theorem semanticNames_colonless : ∀ name ∈ semanticNames, ':' ∉ name := by decide

theorem IsSemantic.colonless {s : List Char} (semantic : IsSemantic s) : ':' ∉ s := by
  obtain ⟨blanks, word, digits, parts, blank, listed, decimal⟩ := semantic
  intro member
  rw [parts] at member
  rcases List.mem_append.mp member with member | member
  · exact absurd (blank ':' member) (by decide)
  · rcases List.mem_append.mp member with member | member
    · exact semanticNames_colonless _ listed (List.mem_map_of_mem (f := folded) member)
    · exact absurd (decimal ':' member) (by decide)

theorem wordEnds_colon (s after : List Char) : wordEnds (s ++ ':' :: after) = wordEnds s := by
  cases s with
  | nil =>
    have mark : (!isWord ':') = true := by decide
    exact mark
  | cons c s => rfl

theorem cut_before_colon {s after gap rest : List Char} (colonless : ':' ∉ gap)
    (text : s ++ ':' :: after = gap ++ rest) : ∃ s', s = gap ++ s' ∧ rest = s' ++ ':' :: after := by
  rcases List.append_eq_append_iff.mp text with ⟨more, longer, here⟩ | ⟨s', front, back⟩
  · cases more with
    | nil => exact ⟨[], by rw [longer, List.append_nil, List.append_nil], here.symm⟩
    | cons c more =>
      cases here
      exact absurd (longer ▸ List.mem_append_right s List.mem_cons_self) colonless
  · exact ⟨s', front, back⟩

theorem afterSemantic?_append (s after : List Char) :
    afterSemantic? (':' :: (s ++ ':' :: after)) =
      (afterSemantic? (':' :: s)).map (· ++ ':' :: after) := by
  apply Option.ext
  intro rest
  rw [Option.map_eq_some_iff]
  constructor
  · intro found
    obtain ⟨semantic, text, is, ends⟩ := afterSemantic?_some.mp found
    obtain ⟨s', front, back⟩ := cut_before_colon is.colonless text
    rw [back, wordEnds_colon] at ends
    exact ⟨s', afterSemantic?_some.mpr ⟨semantic, front, is, ends⟩, back.symm⟩
  · rintro ⟨s', found, same⟩
    obtain ⟨semantic, text, is, ends⟩ := afterSemantic?_some.mp found
    refine afterSemantic?_some.mpr ⟨semantic, ?_, is, ?_⟩
    · rw [text, ← same, List.append_assoc]
    · rw [← same, wordEnds_colon]
      exact ends

theorem afterSemantic?_of_ne {c : Char} (other : c ≠ ':') (s : List Char) :
    afterSemantic? (c :: s) = none := by
  unfold afterSemantic?
  split
  · rename_i here
    cases here
    exact absurd rfl other
  · rfl

theorem stripSemantics_found {s rest : List Char} (found : afterSemantic? s = some rest) :
    stripSemantics s = stripSemantics rest := by
  cases s with
  | nil => cases found
  | cons c s => rw [stripSemantics, found]

theorem stripSemantics_none {c : Char} {s : List Char} (none : afterSemantic? (c :: s) = none) :
    stripSemantics (c :: s) = c :: stripSemantics s := by
  rw [stripSemantics, none]

theorem stripSemantics_nil : stripSemantics [] = [] := by
  rw [stripSemantics]

theorem stripSemantics_append (before after : List Char) :
    stripSemantics (before ++ ':' :: after) =
      stripSemantics before ++ stripSemantics (':' :: after) := by
  -- The cases are those of the pass: a semantic in the text before the colon ends there as well.
  induction before using stripSemantics.induct with
  | case1 => rw [stripSemantics_nil, List.nil_append, List.nil_append]
  | case2 c s rest found ih =>
    have colon : c = ':' := by
      by_contra other
      rw [afterSemantic?_of_ne other] at found
      cases found
    subst colon
    have whole : afterSemantic? (':' :: (s ++ ':' :: after)) = some (rest ++ ':' :: after) := by
      rw [afterSemantic?_append, found]
      rfl
    rw [List.cons_append, stripSemantics_found whole, stripSemantics_found found, ih]
  | case3 c s none ih =>
    have whole : afterSemantic? (c :: (s ++ ':' :: after)) = Option.none := by
      by_cases colon : c = ':'
      · subst colon
        rw [afterSemantic?_append, none]
        rfl
      · exact afterSemantic?_of_ne colon _
    rw [List.cons_append, stripSemantics_none whole, stripSemantics_none none, ih, List.cons_append]

theorem stripSemantics_behind {x : List Char} (colonless : ':' ∉ x) (y : List Char) :
    stripSemantics (x ++ y) = x ++ stripSemantics y := by
  induction x with
  | nil => rfl
  | cons c x ih =>
    obtain ⟨other, later⟩ := not_or.mp (mt List.mem_cons.mpr colonless)
    rw [List.cons_append, stripSemantics_none (afterSemantic?_of_ne (Ne.symm other) _), ih later,
      List.cons_append]

theorem stripSemantics_colonless {s : List Char} (colonless : ':' ∉ s) : stripSemantics s = s := by
  have alone := stripSemantics_behind colonless []
  rwa [stripSemantics_nil, List.append_nil] at alone

/-- A text is unchanged up to its first colon. -/
theorem stripSemantics_upToColon (s : List Char) :
    stripSemantics s =
      s.takeWhile (· ≠ ':') ++ stripSemantics (s.dropWhile (· ≠ ':')) := by
  have colonless : ':' ∉ s.takeWhile (· ≠ ':') := by
    intro taken
    have other := List.mem_takeWhile_imp taken
    simp at other
  cases rest : s.dropWhile (· ≠ ':') with
  | nil =>
    have whole := List.takeWhile_append_dropWhile (p := fun c : Char => decide (c ≠ ':')) (l := s)
    rw [rest, List.append_nil] at whole
    rw [whole] at colonless
    rw [whole, stripSemantics_nil, List.append_nil, stripSemantics_colonless colonless]
  | cons c after =>
    have stop := dropWhile_stops (fun c => decide (c ≠ ':')) s c (by rw [rest]; rfl)
    have colon : c = ':' := by simpa using stop
    subst colon
    conv_lhs => rw [← List.takeWhile_append_dropWhile (p := fun c => decide (c ≠ ':')) (l := s), rest]
    rw [stripSemantics_append, stripSemantics_colonless colonless]

end ShaderBench.Shader
