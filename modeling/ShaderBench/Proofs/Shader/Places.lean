import ShaderBench.Proofs.Shader.Declarations
import ShaderBench.Proofs.Shader.Regions
/-
Places in a text: which role the character has that a token begins with, and the states in which
the reader enters and leaves the text of a declaration.
-/
namespace ShaderBench.Shader
open Text

theorem cut_same {a b a' b' : List Char} (text : a ++ b = a' ++ b')
    (same : byteLength a = byteLength a') : a = a' ∧ b = b' := by
  have cut := cutAt?_append a b
  rw [text, same, cutAt?_append] at cut
  cases cut
  exact ⟨rfl, rfl⟩

theorem Apart.ordered {position : Nat} {s : List Char} {ts : List Token}
    (apart : Apart position s (ts.map Token.span)) :
    ts.Pairwise fun t u => t.stop ≤ u.start :=
  List.pairwise_map.mp apart.pairwise

section Gather
variable {position : Nat} {rs xs ys : List (Char × Role)} {t : Token}

theorem gather_bounds (listed : t ∈ gather position rs) :
    position ≤ t.start ∧ t.start < position + byteLength (rs.map Prod.fst) := by
  induction rs generalizing position with
  | nil => cases listed
  | cons p rs ih =>
    obtain ⟨c, role⟩ := p
    have wide : 0 < c.utf8Size := c.utf8Size_pos
    have later : t ∈ gather (position + c.utf8Size) rs → position ≤ t.start ∧
        t.start < position + (c.utf8Size + byteLength (rs.map Prod.fst)) := by
      intro there
      have bounds := ih there
      omega
    rw [List.map_cons, byteLength_cons]
    cases role with
    | opens kind =>
      rcases List.mem_cons.mp listed with here | there
      · rw [here]
        dsimp only
        omega
      · exact later there
    | continues => exact later listed
    | skipped => exact later listed

theorem gather_late (listed : t ∈ gather position (xs ++ ys))
    (late : position + byteLength (xs.map Prod.fst) ≤ t.start) :
    t ∈ gather (position + byteLength (xs.map Prod.fst)) ys := by
  induction xs generalizing position with
  | nil => exact listed
  | cons p xs ih =>
    obtain ⟨c, role⟩ := p
    rw [List.map_cons, byteLength_cons, ← Nat.add_assoc] at late ⊢
    have wide : 0 < c.utf8Size := c.utf8Size_pos
    cases role with
    | opens kind =>
      rcases List.mem_cons.mp listed with here | there
      · rw [here] at late
        simp only at late
        omega
      · exact ih there late
    | continues => exact ih listed late
    | skipped => exact ih listed late

theorem gather_last (listed : t ∈ gather (position + byteLength (xs.map Prod.fst)) ys) :
    t ∈ gather position (xs ++ ys) := by
  induction xs generalizing position with
  | nil => exact listed
  | cons p xs ih =>
    obtain ⟨c, role⟩ := p
    rw [List.map_cons, byteLength_cons, ← Nat.add_assoc] at listed
    cases role with
    | opens kind => exact List.mem_cons_of_mem _ (ih listed)
    | continues => exact ih listed
    | skipped => exact ih listed

theorem gather_wide (listed : t ∈ gather position rs) : t.start < t.stop := by
  induction rs generalizing position with
  | nil => cases listed
  | cons p rs ih =>
    obtain ⟨c, role⟩ := p
    cases role with
    | opens kind =>
      rcases List.mem_cons.mp listed with here | later
      · have wide : 0 < c.utf8Size := c.utf8Size_pos
        rw [here, Token.stop]
        simp only [byteLength_cons]
        omega
      · exact ih later
    | continues => exact ih listed
    | skipped => exact ih listed

end Gather

theorem token_opens {x y : List Char} {t : Token} (listed : t ∈ tokens (x ++ y))
    (start : t.start = byteLength x) :
    ∃ c y', y = c :: y' ∧ t.text.head? = some c ∧
      ((ReadState.start.after x (some c)).read c y'.head?).2 = .opens t.kind := by
  rw [tokens, roles_append] at listed
  have late := gather_late listed (by rw [map_fst_rolesBefore, start, Nat.zero_add])
  rw [map_fst_rolesBefore, Nat.zero_add] at late
  cases y with
  | nil => cases late
  | cons c y =>
    have wide : 0 < c.utf8Size := c.utf8Size_pos
    have behind : t ∉ gather (byteLength x + c.utf8Size)
        (roles ((ReadState.start.after x (some c)).next c y.head?) y) := by
      intro there
      have bounds := gather_bounds there
      omega
    rw [List.head?_cons, roles] at late
    refine ⟨c, y, rfl, ?_⟩
    cases role : ((ReadState.start.after x (some c)).read c y.head?).2 with
    | opens kind =>
      rw [role] at late
      rcases List.mem_cons.mp late with here | there
      · rw [here]
        exact ⟨rfl, rfl⟩
      · exact absurd there behind
    | continues =>
      rw [role] at late
      exact absurd late behind
    | skipped =>
      rw [role] at late
      exact absurd late behind

theorem opens_token {x y : List Char} {c : Char} {kind : TokenKind}
    (opens : ((ReadState.start.after x (some c)).read c y.head?).2 = .opens kind)
    (alone : ∀ p ∈ (roles ((ReadState.start.after x (some c)).next c y.head?) y).head?,
      p.2 ≠ .continues) : ⟨kind, byteLength x, [c]⟩ ∈ tokens (x ++ c :: y) := by
  have none : (roles ((ReadState.start.after x (some c)).next c y.head?) y).takeWhile
      (·.2 = .continues) = [] := by
    cases rest : roles ((ReadState.start.after x (some c)).next c y.head?) y with
    | nil => rfl
    | cons p rs =>
      rw [rest] at alone
      simp [alone p rfl]
  rw [tokens, roles_append]
  apply gather_last
  rw [map_fst_rolesBefore, Nat.zero_add, List.head?_cons, roles, opens, gather, none]
  exact List.mem_cons_self

/-- The first and the last token of a declaration. It is found from its own tokens, whatever follows
    them. -/
theorem declarationAt?_ends {source : List Char} {ts rest : List Token} {d : Declaration}
    (found : declarationAt? source ts = some (d, rest)) :
    ∃ keyword inner semicolon, ts = keyword :: inner ++ semicolon :: rest ∧ keyword.isIdent ∧
      keyword.text = "uniform".toList ∧ semicolon.isPunct ';' ∧ d.start = keyword.start ∧
      d.stop = semicolon.stop ∧
      ∀ more, declarationAt? source (keyword :: inner ++ semicolon :: more) = some (d, more) := by
  obtain ⟨own, same, spells⟩ := spells_of_declarationAt? found
  obtain ⟨keyword, inner, semicolon, rfl, opens, ends, _, start, stop⟩ := spells.ends
  obtain ⟨ident, text⟩ := Token.isKeyword_iff.mp opens
  refine ⟨keyword, inner, semicolon, by simpa using same, ident, text, ends, start, stop, fun more => ?_⟩
  simpa using spells.read more

theorem collect_ends {source s : List Char} {position : Nat} {ts : List Token}
    (apart : Apart position s (ts.map Token.span)) {d : Declaration}
    (listed : d ∈ collect source ts) :
    ∃ keyword ∈ ts, ∃ semicolon ∈ ts, keyword.isIdent ∧ keyword.text = "uniform".toList ∧
      semicolon.isPunct ';' ∧ d.start = keyword.start ∧ d.stop = semicolon.stop ∧
      keyword.stop ≤ semicolon.start := by
  induction ts using collect.induct source generalizing position s with
  | case1 => simp [collect] at listed
  | case2 t ts d' rest found ih =>
    obtain ⟨keyword, inner, semicolon, same, ident, text, ends, start, stop, _⟩ :=
      declarationAt?_ends found
    rw [collect, found] at listed
    rcases List.mem_cons.mp listed with here | later
    · subst here
      have pair : [keyword, semicolon].Sublist (t :: ts) := by
        rw [same, List.cons_append]
        exact ((List.nil_sublist rest).cons_cons semicolon |>.trans
          (List.sublist_append_right inner _)).cons_cons keyword
      have order := (Apart.ordered apart).sublist pair
      exact ⟨keyword, pair.subset (by simp), semicolon, pair.subset (by simp), ident, text, ends,
        start, stop, (List.pairwise_cons.mp order).1 semicolon List.mem_cons_self⟩
    · have behind : rest.Sublist (t :: ts) := by
        rw [same]
        exact (List.sublist_cons_self semicolon rest).trans (List.sublist_append_right _ _)
      obtain ⟨first, member, last, member', facts⟩ :=
        ih (apart.sublist (behind.map Token.span)) later
      exact ⟨first, behind.subset member, last, behind.subset member', facts⟩
  | case3 t ts none ih =>
    rw [collect, none] at listed
    obtain ⟨first, member, last, member', facts⟩ := ih apart.tail listed
    exact ⟨first, List.mem_cons_of_mem t member, last, List.mem_cons_of_mem t member', facts⟩

theorem between_of_opens {s : ReadState} {c : Char} {next : Option Char} {kind : TokenKind}
    (letter : c.isAlphanum) (opens : (s.read c next).2 = .opens kind) :
    ∃ lineStart, s.region = .between lineStart := by
  have name : continuesName c := by simp [continuesName, letter]
  cases region : s.region with
  | between lineStart => exact ⟨lineStart, rfl⟩
  | word => simp [ReadState.read, region, name] at opens
  | number afterExponent => simp [ReadState.read, region, continuesNumber, letter] at opens
  | lineComment => simp [ReadState.read, region] at opens
  | blockOpening => simp [ReadState.read, region] at opens
  | block afterStar => simp [ReadState.read, region] at opens
  | quoted escaped => simp [ReadState.read, region] at opens
  | directive continuation => simp [ReadState.read, region] at opens

/-- The text between two others is that of a statement: a word with the keyword's first letter
    begins there, and a semicolon ends it. -/
structure Statement (before old after : List Char) : Prop where
  letter : ∃ rest, old = 'u' :: rest
  between : ∃ lineStart, (ReadState.start.after before (some 'u')).region = .between lineStart
  ends : ReadState.start.after (before ++ old) after.head? = ⟨.between false, .empty⟩

theorem after_semicolon {x : List Char} {next : Option Char} {kind : TokenKind}
    (opens : ((ReadState.start.after x (some ';')).read ';' next).2 = .opens kind) :
    ReadState.start.after (x ++ [';']) next = ⟨.between false, .empty⟩ := by
  rw [ReadState.after_append]
  change (ReadState.start.after x (some ';')).next ';' next = _
  rw [next_semicolon]
  by_cases active : (ReadState.start.after x (some ';')).region.active
  · rcases Region.active_cases _ active with ⟨lineStart, region⟩ | region | ⟨e, region⟩ <;>
      (rw [region]; rfl)
  · rw [read_inactive (Bool.eq_false_iff.mpr active)] at opens
    cases opens

theorem declaration_statement {before old after : List Char} {d : Declaration}
    (listed : d ∈ declarations (before ++ old ++ after)) (first : d.start = byteLength before)
    (last : d.stop = d.start + byteLength old) : Statement before old after := by
  obtain ⟨keyword, member, semicolon, member', ident, text, ends, start, stop, order⟩ :=
    collect_ends (tokens_apart _) listed
  -- The semicolon stands at the end of the text.
  obtain ⟨front, middle, back, whole, place, _⟩ :=
    (tokens_apart _).part (List.mem_map_of_mem (f := Token.span) member')
  rw [List.append_assoc front] at whole
  rw [Nat.zero_add] at place
  have member'' := member'
  rw [whole] at member''
  obtain ⟨c, rest, behind, head, opens⟩ := token_opens member'' place
  obtain ⟨_, mark⟩ := isPunct_iff.mp ends
  rw [mark, List.head?_cons, Option.some.injEq] at head
  subst head
  have one : byteLength [';'] = 1 := rfl
  have length : semicolon.stop = byteLength (front ++ [';']) := by
    rw [Token.stop, mark, place, byteLength_append]
  have total : byteLength (before ++ old) = byteLength (front ++ [';']) := by
    rw [byteLength_append, ← length, ← stop, last, first]
  rw [behind, ← List.singleton_append, ← List.append_assoc] at whole
  obtain ⟨body, tail⟩ := cut_same whole total
  -- The keyword stands at its beginning, before the semicolon.
  rw [List.append_assoc] at member
  obtain ⟨u, more, begins, head, opens'⟩ := token_opens member (start.symm.trans first)
  rw [text] at head
  cases head
  have wide : keyword.stop = keyword.start + 7 := by rw [Token.stop, text]; rfl
  have some : byteLength old ≠ 0 := by
    have semicolon_stop : semicolon.stop = semicolon.start + 1 := by rw [Token.stop, mark, one]
    omega
  refine ⟨?_, between_of_opens (by decide) opens', ?_⟩
  · cases old with
    | nil => exact absurd rfl some
    | cons v old =>
      cases begins
      exact ⟨old, rfl⟩
  · rw [body, tail]
    exact after_semicolon opens

def EndsInSlash (x : List Char) (next : Option Char) : Prop :=
  ∃ front, x = front ++ ['/'] ∧
    ((ReadState.start.after front (some '/')).read '/' next).2 = .opens .punct

theorem Statement.slash {before old after : List Char} (statement : Statement before old after)
    (slash : EndsInSlash before (some 'u')) :
    ∃ t ∈ tokens (before ++ old ++ after), t.isPunct '/' ∧ t.stop = byteLength before := by
  obtain ⟨front, same, opens⟩ := slash
  obtain ⟨rest, text⟩ := statement.letter
  obtain ⟨lineStart, region⟩ := statement.between
  have here : ReadState.start.after before (some 'u') =
      (ReadState.start.after front (some '/')).next '/' (some 'u') := by
    rw [same, ReadState.after_append]
    rfl
  have parts : before ++ old ++ after = front ++ '/' :: ('u' :: (rest ++ after)) := by
    rw [same, text]
    simp
  rw [parts]
  refine ⟨⟨.punct, byteLength front, ['/']⟩, opens_token opens ?_, rfl, ?_⟩
  · intro p first
    rw [List.head?_cons, ← here, roles, List.head?_cons, Option.mem_some_iff] at first
    rw [← first]
    exact ReadState.read_fresh 'u' _ (by rw [region]; simp) (by rw [region]; simp)
  · rw [same, byteLength_append]
    rfl

end ShaderBench.Shader
