import ShaderBench.Proofs.Shader.Preamble
import ShaderBench.Proofs.Shader.Tiles
/-
Texts that are joined by a line break. It brings the reader back to its first state, unless a block
comment is open before it or the line is continued, so the tokens of the whole are those of the two
texts.
-/
namespace ShaderBench.Shader
open Text

def Region.inComment : Region → Bool
  | .blockOpening | .block _ => true
  | .between _ | .word | .number _ | .lineComment | .quoted _ | .directive _ => false

def Region.joins : Region → Bool
  | .quoted escaped => escaped
  | .directive continuation => continuation ≠ .none
  | .between _ | .word | .number _ | .lineComment | .blockOpening | .block _ => false

/-- A text has a block comment in it that is not closed: it is opened where tokens can stand, and no
    closing mark follows. -/
def Unclosed (a : List Char) : Prop :=
  ∃ p inner, a = p ++ '/' :: '*' :: inner ∧ (ReadState.start.after p (some '/')).region.active ∧
    ¬ ['*', '/'] <:+: inner

theorem read_break {s : ReadState} (closed : s.region.inComment = false)
    (whole : s.region.joins = false) (next : Option Char) :
    s.read '\n' next = (.between true, .skipped) := by
  by_cases active : s.region.active
  · rcases read_active active '\n' next with between | ⟨_, name⟩ | ⟨e, _, number⟩
    · rw [between]
      rfl
    · cases name
    · simp [continuesNumber] at number
  · rw [Bool.not_eq_true] at active
    refine Prod.ext ?_ (read_inactive active '\n' next)
    have within := read_within active '\n' next
    generalize (s.read '\n' next).1 = later at within ⊢
    generalize s.region = region at *
    cases within with
    | ends => rfl
    | lineComment inside => exact absurd rfl inside
    | opening => cases closed
    | block inside => cases closed
    | quoted inside =>
      rcases inside with escaped | ⟨_, broken⟩
      · rw [escaped] at whole
        cases whole
      · exact absurd rfl broken
    | directive inside =>
      rcases inside with broken | continued
      · exact absurd rfl broken
      · simp [Region.joins, continued] at whole

/- An open comment. -/

theorem read_slash {s : ReadState} (active : s.region.active) :
    s.read '/' (some '*') = (.blockOpening, .skipped) := by
  rw [read_opening active (Or.inl rfl)]
  simp [readBetween, isSpacing]

theorem after_block {p inner : List Char}
    (active : (ReadState.start.after p (some '/')).region.active)
    (unclosed : ¬ ['*', '/'] <:+: inner) (next : Option Char) :
    (ReadState.start.after (p ++ '/' :: '*' :: inner) next).region =
      .block (inner.getLast? = some '*') := by
  induction inner using List.reverseRecOn generalizing next with
  | nil =>
    rw [ReadState.after_append, List.head?_cons, Option.some_or, ReadState.after, ReadState.next,
      List.head?_cons, Option.some_or, read_slash active]
    rfl
  | append_singleton inner c ih =>
    rw [List.infix_concat_iff, suffix_two, not_or] at unclosed
    obtain ⟨ends, before⟩ := unclosed
    have parts : p ++ '/' :: '*' :: (inner ++ [c]) = (p ++ '/' :: '*' :: inner) ++ [c] := by simp
    have inside : ¬ (inner.getLast? = some '*' ∧ c = '/') := by
      rintro ⟨star, slash⟩
      exact ends ⟨slash.symm, star⟩
    rw [parts, ReadState.after_concat, ReadState.next]
    simp only [ReadState.read, ih before, Bool.and_eq_true, decide_eq_true_eq, inside, if_false,
      List.getLast?_concat, Option.some.injEq]

theorem readBetween_comment {lineStart : Bool} {c : Char} {next : Option Char}
    (comment : (readBetween lineStart c next).1.inComment) :
    c = '/' ∧ next = some '*' ∧ (readBetween lineStart c next).1 = .blockOpening := by
  unfold readBetween at comment ⊢
  split_ifs at comment ⊢ with newline spacing hash line block
  all_goals cases comment
  simp only [Bool.and_eq_true, decide_eq_true_eq] at block
  exact ⟨block.1, block.2, rfl⟩

theorem read_comment {s : ReadState} {c : Char} {next : Option Char}
    (comment : (s.read c next).1.inComment) :
    (s.region.active ∧ c = '/' ∧ next = some '*' ∧ (s.read c next).1 = .blockOpening) ∨
      s.region = .blockOpening ∨
      ∃ afterStar, s.region = .block afterStar ∧ (afterStar = false ∨ c ≠ '/') := by
  by_cases active : s.region.active
  · rcases read_active active c next with between | ⟨word, _⟩ | ⟨e, number, _⟩
    · rw [between] at comment ⊢
      exact Or.inl ⟨active, readBetween_comment comment⟩
    · rw [word] at comment
      cases comment
    · rw [number] at comment
      cases comment
  · rw [Bool.not_eq_true] at active
    have within := read_within active c next
    generalize (s.read c next).1 = later at *
    generalize s.region = region at *
    cases within with
    | ends => cases comment
    | lineComment inside => cases comment
    | opening => exact Or.inr (Or.inl rfl)
    | block inside => exact Or.inr (Or.inr ⟨_, rfl, inside⟩)
    | quoted inside => cases comment
    | directive inside => cases comment

/-- Where the reader comes out in a block comment, the text ends in the opening of one or has an
    unclosed one in it. -/
theorem unclosed_after {a : List Char} {next : Option Char}
    (comment : (ReadState.start.after a next).region.inComment) :
    (next = some '*' ∧ (ReadState.start.after a next).region = .blockOpening ∧
        ∃ p, a = p ++ ['/'] ∧ (ReadState.start.after p (some '/')).region.active) ∨
      Unclosed a := by
  induction a using List.reverseRecOn generalizing next with
  | nil => cases comment
  | append_singleton x c ih =>
    rw [ReadState.after_concat] at comment ⊢
    -- The last character opens the comment, is the star of its opening, or stands inside.
    rcases read_comment comment with
      ⟨active, slash, star, opens⟩ | opening | ⟨afterStar, block, inside⟩
    · refine Or.inl ⟨star, opens, x, by rw [slash], ?_⟩
      rw [← slash]
      exact active
    · have before : (ReadState.start.after x (some c)).region.inComment := by rw [opening]; rfl
      rcases ih before with ⟨star, _, p, parts, active⟩ | ⟨p, inner, parts, active, unclosed⟩
      · refine Or.inr ⟨p, [], ?_, active, by simp⟩
        rw [parts, Option.some.inj star, List.append_assoc]
        rfl
      · rw [parts, after_block active unclosed] at opening
        cases opening
    · have before : (ReadState.start.after x (some c)).region.inComment := by rw [block]; rfl
      rcases ih before with ⟨_, opening, _⟩ | ⟨p, inner, parts, active, unclosed⟩
      · rw [opening] at block
        cases block
      · rw [parts, after_block active unclosed] at block
        refine Or.inr ⟨p, inner ++ [c], by rw [parts]; simp, active, ?_⟩
        rw [List.infix_concat_iff, suffix_two]
        rintro (⟨slash, star⟩ | closed)
        · rcases inside with plain | other
          · simp [plain, star] at block
          · exact other slash.symm
        · exact unclosed closed

theorem unclosed_iff {a : List Char} :
    Unclosed a ↔ (ReadState.start.after a none).region.inComment := by
  constructor
  · rintro ⟨p, inner, parts, active, unclosed⟩
    rw [parts, after_block active unclosed]
    rfl
  · intro comment
    rcases unclosed_after comment with ⟨star, _⟩ | unclosed
    · cases star
    · exact unclosed

instance : DecidablePred Unclosed := fun _ => decidable_of_iff _ unclosed_iff.symm

/- A continued line. -/

theorem readBetween_whole (lineStart : Bool) (c : Char) (next : Option Char) :
    (readBetween lineStart c next).1.joins = false := by
  unfold readBetween
  split_ifs
  all_goals rfl

theorem read_joins {s : ReadState} {c : Char} {next : Option Char}
    (joins : (s.read c next).1.joins) :
    c = '\\' ∨ c = '\r' ∧ s.region = .directive .backslash := by
  by_cases active : s.region.active
  · rcases read_active active c next with between | ⟨word, _⟩ | ⟨e, number, _⟩
    · rw [between, readBetween_whole] at joins
      cases joins
    · rw [word] at joins
      cases joins
    · rw [number] at joins
      cases joins
  · rw [Bool.not_eq_true] at active
    have within := read_within active c next
    generalize (s.read c next).1 = later at *
    generalize s.region = region at *
    cases within with
    | ends => cases joins
    | lineComment inside => cases joins
    | opening => cases joins
    | block inside => cases joins
    | quoted inside =>
      simp only [Region.joins, Bool.and_eq_true, decide_eq_true_eq] at joins
      exact Or.inl joins.2
    | directive inside =>
      simp only [Region.joins, decide_eq_true_eq] at joins
      split_ifs at joins with backslash ret
      · exact Or.inl backslash
      · simp only [Bool.and_eq_true, decide_eq_true_eq] at ret
        exact Or.inr ⟨ret.1, by rw [ret.2]⟩
      · exact absurd rfl joins

theorem read_backslash {s : ReadState} {c : Char} {next : Option Char}
    (read : (s.read c next).1 = .directive .backslash) : c = '\\' := by
  rcases read_joins (by rw [read]; rfl) with backslash | ⟨ret, region⟩
  · exact backslash
  · simp [ReadState.read, region, readDirective, ret] at read

theorem getLast?_backslash {x : List Char} {next : Option Char}
    (region : (ReadState.start.after x next).region = .directive .backslash) :
    x.getLast? = some '\\' := by
  rcases List.eq_nil_or_concat x with none | ⟨front, c, parts⟩
  · rw [none] at region
    cases region
  · rw [List.concat_eq_append] at parts
    rw [parts, ReadState.after_concat] at region
    rw [parts, List.getLast?_concat, read_backslash region]

theorem joins_after {a : List Char} {next : Option Char}
    (joins : (ReadState.start.after a next).region.joins) : continuesLine a := by
  rcases List.eq_nil_or_concat a with none | ⟨x, c, parts⟩
  · rw [none] at joins
    cases joins
  · rw [List.concat_eq_append] at parts
    rw [parts, ReadState.after_concat] at joins
    rw [parts, continuesLine, Bool.or_eq_true, decide_eq_true_eq, decide_eq_true_eq, suffix_one,
      suffix_two, List.getLast?_concat]
    rcases read_joins joins with backslash | ⟨ret, region⟩
    · exact Or.inl (congrArg some backslash)
    · exact Or.inr ⟨ret.symm, getLast?_backslash region⟩

/- The text before and the text behind. -/

theorem read_at_break (s : ReadState) (c : Char) : s.read c (some '\n') = s.read c none := by
  have between : ∀ lineStart,
      readBetween lineStart c (some '\n') = readBetween lineStart c none := by
    intro lineStart
    have digit : (some '\n').any Char.isDigit = false := rfl
    simp [readBetween, digit]
  simp only [ReadState.read, between]

/-- A text is read alike in front of a line break and at the end. -/
theorem roles_at_break (s : ReadState) (a : List Char) :
    rolesBefore (some '\n') s a = roles s a ∧ s.after a (some '\n') = s.after a none := by
  induction a generalizing s with
  | nil => exact ⟨rfl, rfl⟩
  | cons c a ih =>
    have read : s.read c (a.head?.or (some '\n')) = s.read c a.head? := by
      cases a with
      | nil => exact read_at_break s c
      | cons d a => rfl
    have next : s.next c (a.head?.or (some '\n')) = s.next c a.head? := by
      rw [ReadState.next, read, ReadState.next]
    obtain ⟨same, after⟩ := ih (s.next c a.head?)
    constructor
    · rw [rolesBefore, read, next, same, roles]
    · rw [ReadState.after, next, after, ReadState.after, Option.or_none]

theorem roles_joined {a : List Char} (closed : ¬ Unclosed a) (whole : continuesLine a = false)
    (b : List Char) :
    roles .start (a ++ '\n' :: b) = roles .start a ++ ('\n', .skipped) :: roles .start b := by
  have outside : (ReadState.start.after a none).region.inComment = false := by
    rw [unclosed_iff] at closed
    exact Bool.not_eq_true _ ▸ closed
  have apart : (ReadState.start.after a none).region.joins = false := by
    by_contra joins
    rw [joins_after (Bool.not_eq_false _ ▸ joins)] at whole
    cases whole
  have read := read_break outside apart b.head?
  obtain ⟨same, after⟩ := roles_at_break .start a
  rw [roles_append, List.head?_cons, same, after, roles, ReadState.next, read]
  rfl

theorem tokens_joined {a : List Char} (closed : ¬ Unclosed a) (whole : continuesLine a = false)
    (b : List Char) :
    tokens (a ++ '\n' :: b) = tokens a ++ (tokens b).map (Token.moved (byteLength a + 1)) := by
  have fresh : ∀ p ∈ (('\n', Role.skipped) :: roles .start b).head?, p.2 ≠ .continues := by
    intro p first
    cases first
    exact Role.noConfusion
  have moved := gather_moved (byteLength a + 1) 0 (roles .start b)
  rw [tokens, roles_joined closed whole, gather_append _ _ _ fresh, map_fst_roles, Nat.zero_add]
  exact congrArg _ moved

/-- Line breaks begin anew: two texts that are joined by one have the tokens of the first, and then
    those of the second in their new places. Behind the preamble a text declares what it declares by
    itself. -/
theorem line_breaks_reset :
    (∀ a b, ¬ Unclosed a → continuesLine a = false →
      tokens (a ++ '\n' :: b) = tokens a ++ (tokens b).map (Token.moved (byteLength a + 1))) ∧
    ∀ b, declarations (preamble.toList ++ '\n' :: b) =
      (declarations b).map (Declaration.moved (byteLength preamble.toList + 1)) := by
  constructor
  · intro a b closed whole
    exact tokens_joined closed whole b
  · intro b
    have behind := header_inert.declarations b
    have one : byteLength ['\n'] = 1 := rfl
    rw [header, byteLength_append, one, List.append_assoc, List.singleton_append] at behind
    exact behind

theorem line_breaks_reset_quote :
    let a := "x /* y */ \"open".toList
    let b := "#define z\nuniform float t;".toList
    ¬ Unclosed a ∧ continuesLine a = false ∧
      tokens (a ++ '\n' :: b) = tokens a ++ (tokens b).map (Token.moved (byteLength a + 1)) := by
  intro a b
  have closed : ¬ Unclosed a := by decide
  have whole : continuesLine a = false := by decide
  exact ⟨closed, whole, line_breaks_reset.1 a b closed whole⟩

end ShaderBench.Shader
