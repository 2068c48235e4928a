import ShaderBench.Proofs.Shader.Commented
import ShaderBench.Proofs.Shader.DeclaredNames
import ShaderBench.Proofs.Shader.TiledTokens
/-
What is written in a comment, a quoted string or a directive makes no difference to the tokens. The
reader comes to such a stretch between tokens and leaves it in a state that shows neither what was
in it nor how long it was, so another one can take its place.
-/
namespace ShaderBench.Shader
open Text

def Stretch (kind : Skip) (r s : List Char) : Prop :=
  ∃ inner, r = kind.opening ++ inner ∧ Longest kind.goesOn s [] inner

/-- Behind the first text the reader stands between tokens or at the end of one, and the stretch is
    what it passes over next. A directive begins only where the line has just begun. -/
structure Skips (kind : Skip) (p r s : List Char) : Prop where
  reached : (ReadState.start.after p r.head?).region.active
  placed : kind = .directive → (ReadState.start.after p r.head?).region = .between true
  stretch : Stretch kind r s

def Skip.entered : Skip → Region
  | .lineComment => .lineComment
  | .blockComment => .blockOpening
  | .quoted => .quoted false
  | .directive => .directive .none

/- The state in front of a stretch. -/

theorem ReadState.after_run (s : ReadState) (x : List Char) (following : Option Char) :
    (s.after x following).run = x.foldl Run.extend s.run := by
  induction x generalizing s with
  | nil => rfl
  | cons c x ih => exact ih _

theorem after_stateIn_start (p : List Char) (next : Option Char) :
    ReadState.start.after p next = stateIn (ReadState.start.after p next).region p := by
  have run := ReadState.after_run .start p next
  generalize ReadState.start.after p next = state at *
  cases state
  exact congrArg (ReadState.mk _) run

theorem readBetween_lineStart {lineStart : Bool} {c : Char} {next : Option Char}
    (begun : (readBetween lineStart c next).1 = .between true) :
    c = '\n' ∨ isSpacing c ∧ lineStart = true := by
  unfold readBetween at begun
  split_ifs at begun with newline spacing
  · exact Or.inl newline
  · refine Or.inr ⟨spacing, ?_⟩
    cases begun
    rfl
  all_goals cases begun

theorem read_lineStart {s : ReadState} {c : Char} {next : Option Char}
    (begun : (s.read c next).1 = .between true) :
    c = '\n' ∨ isSpacing c ∧ s.region = .between true := by
  by_cases active : s.region.active
  · rcases read_active active c next with between | ⟨word, _⟩ | ⟨e, number, _⟩
    · rw [between] at begun
      simpa using readBetween_lineStart begun
    · rw [word] at begun
      cases begun
    · rw [number] at begun
      cases begun
  · have within := read_within (Bool.not_eq_true _ ▸ active) c next
    rw [begun] at within
    generalize s.region = here, between : Region.between true = there at within
    cases within with
    | ends r => exact Or.inl (by simpa using between)
    | lineComment inside => cases between
    | opening => cases between
    | block inside => cases between
    | quoted inside => cases between
    | directive inside => cases between

theorem atLineStart_after {p : List Char} {next : Option Char}
    (begun : (ReadState.start.after p next).region = .between true) : atLineStart p := by
  induction p using List.reverseRecOn generalizing next with
  | nil => rfl
  | append_singleton p c ih =>
    rw [ReadState.after_concat] at begun
    rw [atLineStart_concat, Bool.or_eq_true, Bool.and_eq_true, decide_eq_true_eq]
    rcases read_lineStart begun with newline | ⟨spacing, before⟩
    · exact Or.inl newline
    · exact Or.inr ⟨spacing, ih before⟩

theorem Skip.begins (kind : Skip) : ∃ c rest, kind.opening = c :: rest ∧
    (c = '/' ∨ c = '"' ∨ c = '#' ∧ kind = .directive) := by
  cases kind with
  | lineComment => exact ⟨'/', ['/'], rfl, Or.inl rfl⟩
  | blockComment => exact ⟨'/', ['*'], rfl, Or.inl rfl⟩
  | quoted => exact ⟨'"', [], rfl, Or.inr (Or.inl rfl)⟩
  | directive => exact ⟨'#', [], rfl, Or.inr (Or.inr ⟨rfl, rfl⟩)⟩

section Skips
variable {kind kind' : Skip} {p r r' s : List Char}

theorem Stretch.head (stretch : Stretch kind r s) : r.head? = kind.opening.head? := by
  obtain ⟨inner, rfl, _⟩ := stretch
  obtain ⟨c, rest, opening, _⟩ := kind.begins
  rw [opening]
  rfl

theorem Skips.stands (skips : Skips kind p r s) (rest : List Char) :
    Stands p (kind.opening ++ rest) (ReadState.start.after p r.head?).region := by
  obtain ⟨c, more, opening, mark⟩ := kind.begins
  intro d first next
  rw [opening, List.cons_append, List.head?_cons, Option.mem_some_iff] at first
  subst d
  rw [← after_stateIn_start]
  rcases mark with slash | quote | ⟨hash, directive⟩
  · rw [read_opening skips.reached (Or.inl slash)]
    exact readBetween_line (by simp [slash]) next _ _ (by simp [slash, isSpacing])
  · rw [read_opening skips.reached (Or.inr (Or.inl quote))]
    exact readBetween_line (by simp [quote]) next _ _ (by simp [quote, isSpacing])
  · have begun := skips.placed directive
    rw [read_opening skips.reached (Or.inr (Or.inr hash)), begun, atLineStart_after begun]
    rfl

end Skips

theorem readBetween_enters {lineStart : Bool} {c : Char} {rest : List Char} {kind : Skip} :
    (readBetween lineStart c rest.head?).1 = kind.entered ↔
      kind.opening <+: c :: rest ∧ (kind = .directive → lineStart = true) := by
  have first : ∀ a, a = c ↔ c = a := fun a => eq_comm
  constructor
  · intro entered
    unfold readBetween at entered
    split_ifs at entered with newline spacing hash line block quote name number
    all_goals
      cases kind <;> cases entered
    · simpa [Skip.opening, first, and_comm] using hash
    · simpa [Skip.opening, first, prefix_one] using line
    · simpa [Skip.opening, first, prefix_one] using block
    · simpa [Skip.opening, first] using quote
  · rintro ⟨⟨behind, parts⟩, placed⟩
    cases kind
    all_goals
      obtain ⟨rfl, rfl⟩ := List.cons.inj parts
      simp [readBetween, isSpacing, Skip.entered, placed]

/-- Among tokens a region is entered just where a stretch of its kind is passed over next. -/
theorem enters_iff {kind : Skip} {p rest : List Char} {c : Char}
    (active : (ReadState.start.after p (some c)).region.active) :
    ((ReadState.start.after p (some c)).read c rest.head?).1 = kind.entered ↔
      ∃ r s, c :: rest = r ++ s ∧ Skips kind p r s := by
  constructor
  · intro entered
    rcases read_active active c rest.head? with plain | ⟨word, _⟩ | ⟨e, number, _⟩
    · rw [plain, readBetween_enters] at entered
      obtain ⟨⟨behind, parts⟩, placed⟩ := entered
      obtain ⟨inner, s, text, body⟩ := exists_longest kind.goesOn [] behind
      have whole : c :: rest = kind.opening ++ inner ++ s := by
        rw [← parts, text, List.append_assoc]
      have stretch : Stretch kind (kind.opening ++ inner) s := ⟨inner, rfl, body⟩
      have first : (kind.opening ++ inner).head? = some c := by
        obtain ⟨d, more, opening, _⟩ := kind.begins
        rw [opening] at whole ⊢
        exact congrArg some (List.cons.inj whole).1.symm
      refine ⟨kind.opening ++ inner, s, whole, ?_, ?_, stretch⟩
      · rw [first]
        exact active
      · rw [first]
        simpa using placed
    · rw [word] at entered
      cases kind <;> cases entered
    · rw [number] at entered
      cases kind <;> cases entered
  · rintro ⟨r, s, parts, reached, placed, inner, rfl, body⟩
    have marked : kind.opening <+: c :: rest := ⟨inner ++ s, by rw [parts, List.append_assoc]⟩
    obtain ⟨d, more, opening, mark⟩ := kind.begins
    have same : d = c := by
      rw [opening] at parts
      exact (List.cons.inj parts).1.symm
    subst same
    rw [opening] at placed
    rw [read_opening active (by tauto), readBetween_enters]
    exact ⟨marked, fun directive => decide_eq_true (placed directive)⟩

/- The state behind a stretch. -/

theorem run_after_mark {x : List Char} {c : Char} (last : x.getLast? = some c)
    (other : isLiteral c = false) : x.foldl Run.extend .empty = .empty := by
  obtain ⟨start, parts⟩ := List.getLast?_eq_some_iff.mp last
  have letter : (c.isAlphanum || c = '.') = false := other
  rw [parts, List.foldl_append]
  simp [Run.extend, letter]

theorem Skip.run_settled {kind : Skip} {inner : List Char} {c : Char} (before : List Char)
    (stops : kind.goesOn inner c = false) :
    c = '\n' ∨ (before ++ (kind.opening ++ inner)).foldl Run.extend .empty = .empty := by
  rcases Skip.closing before stops with newline | ⟨d, slash | quote, last⟩
  · exact Or.inl newline
  · exact Or.inr (run_after_mark last (by rw [slash]; rfl))
  · exact Or.inr (run_after_mark last (by rw [quote]; rfl))

/-- Behind a stretch a text is read as behind any other one. -/
theorem Fits.roles_behind {kind : Skip} {inner before after : List Char} {region : Region}
    (fits : Fits before after (.skipped kind inner))
    (stands : Stands (before ++ (kind.opening ++ inner)) after region) :
    roles (stateIn region (before ++ (kind.opening ++ inner))) after =
      roles ⟨.between false, .empty⟩ after := by
  cases after with
  | nil => rfl
  | cons c after =>
    cases fits with
    | skipped placed body =>
      have stops : kind.goesOn inner c = false := body.stops c rfl
      have read := stands c rfl after.head?
      -- A line break forgets what stood before it, and otherwise the stretch ends in a character
      -- that no line begins with and no number goes on with.
      have same : (stateIn region (before ++ (kind.opening ++ inner))).read c after.head? =
          ReadState.read ⟨.between false, .empty⟩ c after.head? := by
        rw [read]
        rcases Skip.settled before stops with newline | settled
        · rw [newline]
          simp [ReadState.read, readBetween]
        · rw [settled]
          rfl
      have run : (stateIn region (before ++ (kind.opening ++ inner))).run.extend c =
          Run.empty.extend c := by
        rcases Skip.run_settled before stops with newline | settled
        · rw [newline]
          rfl
        · rw [stateIn, settled]
      rw [roles, roles, ReadState.next, ReadState.next, same, run]

section Skips
variable {kind kind' : Skip} {p r r' s : List Char}

theorem Skips.filled (skips : Skips kind p r s) : r ≠ [] := by
  obtain ⟨inner, rfl, _⟩ := skips.stretch
  obtain ⟨c, rest, opening, _⟩ := kind.begins
  rw [opening]
  exact List.cons_ne_nil c _

/-- Of what is skipped only the first character shows in the roles around it. -/
theorem Skips.roles (skips : Skips kind p r s) :
    Shader.roles .start (p ++ r ++ s) =
      rolesBefore kind.opening.head? .start p ++
        (r.map (·, .skipped) ++ Shader.roles ⟨.between false, .empty⟩ s) := by
  have stands := skips.stands
  have head := skips.stretch.head
  have first : (r ++ s).head? = r.head? := List.head?_append_of_ne_nil r skips.filled
  -- The stretch is a tile, and the first text leaves the reader where one can stand.
  obtain ⟨_, placed, inner, rfl, body⟩ := skips
  have fits : Fits p s (.skipped kind inner) :=
    .skipped (fun directive => atLineStart_after (placed directive)) body
  have stands' := stands (inner ++ s)
  rw [← List.append_assoc] at stands'
  obtain ⟨read, region, next, behind⟩ := fits.reads stands'
  rw [← after_stateIn_start] at read next
  rw [Tile.text] at read next behind
  rw [List.append_assoc, roles_append, roles_append, first, read, next, fits.roles_behind behind,
    ← head]
  rfl

theorem contents_skipped_append (text : List Char) (rs : List (Char × Role)) :
    contents (text.map (·, .skipped) ++ rs) = contents rs := by
  induction text with
  | nil => rfl
  | cons c text ih => rw [List.map_cons, List.cons_append, contents_skipped, ih]

theorem Skips.contents (skips : Skips kind p r s) :
    Shader.contents (Shader.roles .start (p ++ r ++ s)) =
      Shader.contents (rolesBefore kind.opening.head? .start p) ++
        Shader.contents (Shader.roles ⟨.between false, .empty⟩ s) := by
  have fresh : ∀ q ∈ (r.map (·, Role.skipped) ++
      Shader.roles ⟨.between false, .empty⟩ s).head?, q.2 ≠ .continues := by
    intro q listed
    rw [List.head?_append_of_ne_nil _ (by simpa using skips.filled), List.head?_map] at listed
    obtain ⟨c, _, same⟩ := Option.map_eq_some_iff.mp listed
    rw [← same]
    exact Role.noConfusion
  rw [skips.roles, contents_append _ _ fresh, contents_skipped_append]

theorem Skips.replaced (skips : Skips kind p r s) (other : Stretch kind' r' s)
    (alike : kind'.opening.head? = kind.opening.head?) : Skips kind' p r' s := by
  have head : r'.head? = r.head? := by rw [other.head, alike, skips.stretch.head]
  refine ⟨by rw [head]; exact skips.reached, fun directive => ?_, other⟩
  rw [head]
  refine skips.placed ?_
  rw [directive] at alike
  cases kind with
  | lineComment => cases alike
  | blockComment => cases alike
  | quoted => cases alike
  | directive => rfl

end Skips

/-- Comments, quoted strings and directives are opaque: wherever the reader comes to one, any other
    one of its kind can stand there, where both forms of comments are of one kind. It is passed over
    as well, all tokens keep their kinds and texts, and the same types and names are declared. -/
theorem skipped_opaque {kind kind' : Skip} {p r r' s : List Char} (skips : Skips kind p r s)
    (other : Stretch kind' r' s) (alike : kind'.opening.head? = kind.opening.head?) :
    Skips kind' p r' s ∧
      (tokens (p ++ r' ++ s)).map Token.content = (tokens (p ++ r ++ s)).map Token.content ∧
      (declarations (p ++ r' ++ s)).map Declaration.head =
        (declarations (p ++ r ++ s)).map Declaration.head := by
  have skips' := skips.replaced other alike
  have same : (tokens (p ++ r' ++ s)).map Token.content =
      (tokens (p ++ r ++ s)).map Token.content := by
    have before := skips.contents
    have after := skips'.contents
    rw [alike, ← before] at after
    exact after
  refine ⟨skips', same, collect_zeroed _ _ ?_⟩
  rw [same]
  exact .refl _

theorem skipped_opaque_directive :
    let p := "uniform float a;\n\t".toList
    let r := "#define x \\\nuniform float b;".toList
    let r' := "# \"/*".toList
    let s := "\nuniform float c;".toList
    Skips .directive p r' s ∧
      (tokens (p ++ r' ++ s)).map Token.content = (tokens (p ++ r ++ s)).map Token.content ∧
      (declarations (p ++ r' ++ s)).map Declaration.head =
        (declarations (p ++ r ++ s)).map Declaration.head := by
  intro p r r' s
  have skips : Skips .directive p r s :=
    ⟨by decide, by decide, "define x \\\nuniform float b;".toList, by decide, by decide⟩
  have other : Stretch .directive r' s := ⟨" \"/*".toList, by decide, by decide⟩
  exact skipped_opaque skips other rfl

end ShaderBench.Shader
