import ShaderBench.Proofs.Gpu.Lowering
/-
Where a program is cut on its way through lowering. The tokens and the declarations that are read in
it, the mark and what lies between them can be cut out of every text; the one cut that can fail is
the one right behind the preamble.
-/
namespace ShaderBench.Text

def Cuttable (s : List Char) (span : Nat × Nat) : Prop := (slice? span.1 span.2 s).isSome

theorem cutAt?_eq {n : Nat} {s before after : List Char} (cut : cutAt? n s = some (before, after)) :
    s = before ++ after ∧ n = byteLength before := by
  induction n, s using cutAt?.induct generalizing before with
  | case1 s =>
    rw [cutAt?] at cut
    cases cut
    exact ⟨rfl, rfl⟩
  | case2 n =>
    rw [cutAt?] at cut
    cases cut
  | case3 n c s fits ih =>
    rw [cutAt?, if_pos fits] at cut
    obtain ⟨⟨front, back⟩, later, same⟩ := Option.map_eq_some_iff.mp cut
    cases same
    obtain ⟨text, width⟩ := ih later
    refine ⟨by rw [text, List.cons_append], ?_⟩
    rw [byteLength_cons]
    omega
  | case4 n c s wide =>
    rw [cutAt?, if_neg wide] at cut
    cases cut

theorem cuttable_iff {s : List Char} {start stop : Nat} :
    Cuttable s (start, stop) ↔ ∃ before middle after, s = before ++ middle ++ after ∧
      start = byteLength before ∧ stop = start + byteLength middle := by
  constructor
  · intro cuttable
    obtain ⟨text, sliced⟩ := Option.isSome_iff_exists.mp cuttable
    obtain ⟨⟨before, rest⟩, cut, sliced⟩ := Option.bind_eq_some_iff.mp sliced
    obtain ⟨⟨middle, after⟩, cut', sliced⟩ := Option.bind_eq_some_iff.mp sliced
    simp only at cut cut' sliced
    split at sliced
    · rename_i ordered
      obtain ⟨parts, first⟩ := cutAt?_eq cut
      obtain ⟨parts', width⟩ := cutAt?_eq cut'
      refine ⟨before, middle, after, ?_, first, ?_⟩
      · rw [parts, parts', List.append_assoc]
      · omega
    · cases sliced
  · rintro ⟨before, middle, after, text, first, last⟩
    rw [Cuttable, text, last, first, slice?_append]
    rfl

theorem cuttable_front {s : List Char} {n : Nat} : Cuttable s (0, n) ↔ (cutAt? n s).isSome := by
  have whole : cutAt? 0 s = some ([], s) := by cases s <;> rfl
  simp only [Cuttable, slice?, whole, bind, Option.bind_some, Nat.sub_zero, Nat.zero_le, if_true]
  rw [Option.isSome_bind]
  cases cutAt? n s <;> rfl

/-- The stretches around some others, from a position to the end. -/
def around (position stop : Nat) : List (Nat × Nat) → List (Nat × Nat)
  | [] => [(position, stop)]
  | (first, last) :: rest => (position, first) :: around last stop rest

theorem Apart.cuttable {s : List Char} {spans : List (Nat × Nat)} (apart : Apart 0 s spans) :
    ∀ span ∈ spans, Cuttable s span := by
  intro span listed
  obtain ⟨before, middle, after, text, first, last⟩ := apart.part listed
  exact cuttable_iff.mpr ⟨before, middle, after, text, by rw [first, Nat.zero_add], last⟩

theorem Apart.cuttable_around {front s : List Char} {spans : List (Nat × Nat)}
    (apart : Apart (byteLength front) s spans) :
    ∀ span ∈ around (byteLength front) (byteLength (front ++ s)) spans,
      Cuttable (front ++ s) span := by
  induction spans generalizing front s with
  | nil =>
    intro span listed
    rw [List.mem_singleton.mp listed]
    exact cuttable_iff.mpr ⟨front, s, [], by simp, rfl, byteLength_append front s⟩
  | cons span spans ih =>
    obtain ⟨first, last⟩ := span
    obtain ⟨gap, middle, after, text, start, stop, later⟩ := apart
    intro span listed
    rcases List.mem_cons.mp listed with here | there
    · rw [here]
      exact cuttable_iff.mpr ⟨front, gap, middle ++ after, by rw [text]; simp, rfl, start⟩
    · have place : last = byteLength (front ++ gap ++ middle) := by
        rw [stop, start, byteLength_append, byteLength_append]
      have whole : front ++ s = front ++ gap ++ middle ++ after := by
        rw [text]
        simp
      rw [place] at later there
      rw [whole] at there ⊢
      exact ih later span there

theorem Apart.cuttable_through {s : List Char} {spans some : List (Nat × Nat)} (apart : Apart 0 s spans)
    (chosen : some.Sublist spans) {first last : Nat × Nat} (begins : some.head? = Option.some first)
    (ends : some.getLast? = Option.some last) : Cuttable s (first.1, last.2) := by
  cases some with
  | nil => cases begins
  | cons span rest =>
    cases begins
    have inner := apart.sublist chosen
    rcases List.eq_nil_or_concat rest with none | ⟨middle, final, parts⟩
    · rw [none] at inner ends
      cases ends
      exact inner.cuttable _ List.mem_cons_self
    · rw [parts, List.concat_eq_append] at inner ends
      rw [← List.cons_append, List.getLast?_concat, Option.some.injEq] at ends
      rw [ends] at inner
      have two : [first, last].Sublist (first :: (middle ++ [last])) :=
        (List.sublist_append_right middle [last]).cons_cons first
      exact (inner.sublist two).join.cuttable _ List.mem_cons_self

theorem splitAround?_none {word s : List Char} : splitAround? word s = none ↔ ¬ word <:+: s := by
  constructor
  · rintro none ⟨before, after, text⟩
    have found := splitAround?_isSome text.symm
    rw [none] at found
    cases found
  · intro absent
    cases found : splitAround? word s with
    | none => rfl
    | some parts => exact absurd ⟨parts.1, parts.2, (splitAround?_eq found).symm⟩ absent

theorem cutAt?_one {s : List Char} :
    (cutAt? 1 s).isSome ↔ ∃ c rest, s = c :: rest ∧ c.utf8Size = 1 := by
  cases s with
  | nil => simp [cutAt?]
  | cons c s =>
    have wide : 0 < c.utf8Size := c.utf8Size_pos
    by_cases single : c.utf8Size = 1
    · simp [cutAt?, single]
    · have beyond : ¬ c.utf8Size ≤ 0 + 1 := by omega
      simp [cutAt?, beyond, single]

end ShaderBench.Text

namespace ShaderBench.Gpu
open Shader Text

def Lowers (program : List Char) : Prop :=
  lower program = .error .markMissing ∨ ∃ lowered, lower program = .ok lowered

/-- Behind the preamble that a program begins with there is no character of one byte. -/
def EndsInPreamble (program : List Char) : Prop :=
  program = preamble.toList ∨
    ∃ c rest, program = preamble.toList ++ c :: rest ∧ 1 < c.utf8Size

/-- The stretches that lowering cuts out of a program with a mark: what lies before the mark, the
    declarations of members, and what lies around them. -/
def loweringCuts (program : List Char) : List (Nat × Nat) :=
  match splitAround? parameterMark.toList program with
  | none => []
  | some (before, _) =>
    let position := byteLength before + byteLength parameterMark.toList
    let taken := (members position program).map fun m => m.declaration.span
    (0, byteLength before) :: (taken ++ around position (byteLength program) taken)

/-- To count the lines before a document, an intact preamble is cut off with one byte more. -/
def documentCuts (program : List Char) : List (Nat × Nat) :=
  if preamble.toList.isPrefixOf program then [(0, byteLength preamble.toList + 1)] else []

theorem cutAt?_preamble (rest : List Char) :
    (cutAt? (byteLength preamble.toList + 1) (preamble.toList ++ rest)).isSome ↔
      ¬ EndsInPreamble (preamble.toList ++ rest) := by
  rw [cutAt?_past, Option.isSome_map, cutAt?_one]
  constructor
  · rintro ⟨c, rest, text, single⟩ (none | ⟨d, more, text', wide⟩)
    · rw [text] at none
      cases List.append_right_eq_self.mp none
    · cases (List.append_cancel_left text').symm.trans text
      omega
  · intro goes_on
    cases rest with
    | nil => exact absurd (.inl (List.append_nil _)) goes_on
    | cons c rest =>
      refine ⟨c, rest, rfl, ?_⟩
      have wide : 0 < c.utf8Size := c.utf8Size_pos
      have single : ¬ 1 < c.utf8Size := fun wide => goes_on (.inr ⟨c, rest, rfl, wide⟩)
      omega

section Programs
variable {program : List Char}

theorem EndsInPreamble.begins (ends : EndsInPreamble program) : preamble.toList <+: program := by
  rcases ends with same | ⟨c, rest, text, _⟩
  · exact same ▸ List.prefix_refl _
  · exact ⟨c :: rest, text.symm⟩

theorem EndsInPreamble.marked (ends : EndsInPreamble program) : parameterMark.toList <:+: program := by
  obtain ⟨front, back, text⟩ := preamble_mark
  obtain ⟨rest, whole⟩ := ends.begins
  exact ⟨front, back ++ rest, by rw [← whole, text]; simp⟩

theorem bodyLine?_cases (program block : List Char) :
    (EndsInPreamble program ∧ bodyLine? program block = .error .badCut) ∨
      (¬ EndsInPreamble program ∧ ∃ line, bodyLine? program block = .ok line) := by
  by_cases begins : preamble.toList.isPrefixOf program
  · obtain ⟨rest, text⟩ := List.isPrefixOf_iff_prefix.mp begins
    have cut := cutAt?_preamble rest
    rw [text] at cut
    rw [bodyLine?, if_pos begins]
    cases found : cutAt? (byteLength preamble.toList + 1) program with
    | none =>
      rw [found] at cut
      have ends : EndsInPreamble program := by simpa using cut
      exact .inl ⟨ends, rfl⟩
    | some parts =>
      rw [found] at cut
      exact .inr ⟨cut.mp rfl, _, rfl⟩
  · rw [bodyLine?, if_neg begins]
    refine .inr ⟨?_, none, rfl⟩
    intro ends
    exact begins (List.isPrefixOf_iff_prefix.mpr ends.begins)

theorem lower_cases (program : List Char) :
    (¬ parameterMark.toList <:+: program ∧ lower program = .error .markMissing) ∨
      (parameterMark.toList <:+: program ∧ EndsInPreamble program ∧
        lower program = .error .badCut) ∨
      (parameterMark.toList <:+: program ∧ ¬ EndsInPreamble program ∧
        ∃ lowered, lower program = .ok lowered) := by
  cases split : splitAround? parameterMark.toList program with
  | none => exact .inl ⟨splitAround?_none.mp split, by rw [lower, split]⟩
  | some parts =>
    obtain ⟨before, after⟩ := parts
    have marked : parameterMark.toList <:+: program :=
      ⟨before, after, (splitAround?_eq split).symm⟩
    have lowered := lower_eq split
    extract_lets found at lowered
    rcases bodyLine?_cases program (blockOf found) with ⟨ends, made⟩ | ⟨on, line, made⟩
    · rw [made] at lowered
      exact .inr (.inl ⟨marked, ends, lowered⟩)
    · rw [made] at lowered
      exact .inr (.inr ⟨marked, on, _, lowered⟩)

theorem loweringCuts_cuttable (program : List Char) :
    ∀ span ∈ loweringCuts program, Cuttable program span := by
  intro span listed
  unfold loweringCuts at listed
  split at listed
  · cases listed
  · rename_i before after split
    have text := splitAround?_eq split
    have apart := comments_apart (before ++ parameterMark.toList) after
    rw [comments_span, byteLength_append, ← text] at apart
    simp only [List.mem_cons, List.mem_append] at listed
    rcases listed with front | member | between
    · rw [front]
      exact cuttable_iff.mpr ⟨[], before, parameterMark.toList ++ after, by simp [text], rfl,
        (Nat.zero_add _).symm⟩
    · obtain ⟨m, found, same⟩ := List.mem_map.mp member
      rw [← same]
      have declared := (members_declared found).1
      exact (declarations_apart program).cuttable _ (List.mem_map_of_mem declared)
    · rw [← byteLength_append] at apart between
      have around := apart.cuttable_around span
      rw [← text] at around
      exact around between

theorem tokens_cuttable {ts : List Token} (inside : ts <:+: tokens program) {first last : Token}
    (begins : ts.head? = some first) (ends : ts.getLast? = some last) :
    Cuttable program (first.start, last.stop) := by
  have apart := tokens_apart program
  have chosen : (ts.map Token.span).Sublist ((tokens program).map Token.span) :=
    inside.sublist.map Token.span
  have begins' : (ts.map Token.span).head? = some first.span := by rw [List.head?_map, begins]; rfl
  have ends' : (ts.map Token.span).getLast? = some last.span := by rw [List.getLast?_map, ends]; rfl
  exact apart.cuttable_through chosen begins' ends'

theorem documentCuts_cuttable (program : List Char) :
    (∀ span ∈ documentCuts program, Cuttable program span) ↔ ¬ EndsInPreamble program := by
  unfold documentCuts
  split
  · rename_i begins
    obtain ⟨rest, text⟩ := List.isPrefixOf_iff_prefix.mp begins
    rw [List.forall_mem_singleton, cuttable_front, ← text]
    exact cutAt?_preamble rest
  · rename_i other
    constructor
    · intro _ ends
      exact other (List.isPrefixOf_iff_prefix.mpr ends.begins)
    · intro _ span listed
      cases listed

end Programs

/-- Lowering fails to end well exactly for a program that begins with the preamble and has no
    character of one byte behind it. Of all that is cut out of a program (any tokens in a row, and
    with them the types, names, values and declarations that are read in it; what lies before the
    mark, the declarations of members, and what lies around them) only the preamble with one byte
    more may not be there to be cut off. The mark is told to be missing just where it is. -/
theorem lowering_total_iff (program : List Char) :
    (Lowers program ↔ ¬ EndsInPreamble program) ∧
      (lower program = .error .markMissing ↔ ¬ parameterMark.toList <:+: program) ∧
      (lower program = .error .badCut ↔ EndsInPreamble program) ∧
      (∀ ts, ts <:+: tokens program → ∀ first ∈ ts.head?, ∀ last ∈ ts.getLast?,
        Cuttable program (first.start, last.stop)) ∧
      (∀ span ∈ loweringCuts program, Cuttable program span) ∧
      ((∀ span ∈ documentCuts program, Cuttable program span) ↔ ¬ EndsInPreamble program) := by
  have runs : ∀ ts, ts <:+: tokens program → ∀ first ∈ ts.head?, ∀ last ∈ ts.getLast?,
      Cuttable program (first.start, last.stop) := by
    intro ts inside first begins last ends
    exact tokens_cuttable inside begins ends
  refine ⟨?_, ?_, ?_, runs, loweringCuts_cuttable program, documentCuts_cuttable program⟩
  all_goals rcases lower_cases program with ⟨absent, result⟩ | ⟨marked, ends, result⟩ |
    ⟨marked, on, lowered, result⟩
  · simp [Lowers, result, mt EndsInPreamble.marked absent]
  · simp [Lowers, result, ends]
  · simp [Lowers, result, on]
  · simp [result, absent]
  · simp [result, marked]
  · simp [result, marked]
  · simp [result, mt EndsInPreamble.marked absent]
  · simp [result, ends]
  · simp [result, on]

theorem preamble_not_lowered : ¬ Lowers preamble.toList := by
  have ends : EndsInPreamble preamble.toList := .inl rfl
  rcases lower_cases preamble.toList with ⟨absent, _⟩ | ⟨_, _, result⟩ | ⟨_, on, _⟩
  · exact absurd ends.marked absent
  · simp [Lowers, result]
  · exact absurd ends on

end ShaderBench.Gpu
