import ShaderBench.Proofs.Shader.LaidTiles
/-
The tokens of a source that is laid with tiles are its tiles of tokens, each at the place where it
lies.
-/
namespace ShaderBench.Shader
open Text

/-- The state of a reader that stands in a region, behind the given text. -/
def stateIn (region : Region) (before : List Char) : ReadState :=
  ⟨region, before.foldl Run.extend .empty⟩

section Cons
variable {region region' : Region} {role : Role} {before text : List Char} {c : Char}
  {following : Option Char}

theorem rolesBefore_stateIn
    (read : (stateIn region before).read c (text.head?.or following) = (region', role)) :
    rolesBefore following (stateIn region before) (c :: text) =
      (c, role) :: rolesBefore following (stateIn region' (before ++ [c])) text := by
  rw [rolesBefore, ReadState.next, read]
  simp only [stateIn, List.foldl_append, List.foldl_cons, List.foldl_nil]

theorem after_stateIn
    (read : (stateIn region before).read c (text.head?.or following) = (region', role)) :
    (stateIn region before).after (c :: text) following =
      (stateIn region' (before ++ [c])).after text following := by
  rw [ReadState.after, ReadState.next, read]
  simp only [stateIn, List.foldl_append, List.foldl_cons, List.foldl_nil]

end Cons

/-- Where every character that goes on keeps the region that belongs to the text before it, the
    whole of the longest text is read alike. -/
theorem Longest.reads {goesOn : List Char → Char → Bool} {front before text after : List Char}
    {role : Role} (longest : Longest goesOn after before text) (region : List Char → Region)
    (step : ∀ inner c next, goesOn inner c →
      (stateIn (region inner) (front ++ inner)).read c next = (region (inner ++ [c]), role)) :
    rolesBefore after.head? (stateIn (region before) (front ++ before)) text =
        text.map (·, role) ∧
      (stateIn (region before) (front ++ before)).after text after.head? =
        stateIn (region (before ++ text)) (front ++ (before ++ text)) := by
  induction longest with
  | ends stops => simp [rolesBefore, ReadState.after]
  | @on before text c here later ih =>
    have read := step before c (text.head?.or after.head?) here
    have parts : before ++ c :: text = before ++ [c] ++ text := by simp
    rw [rolesBefore_stateIn read, after_stateIn read, List.append_assoc front, ih.1, ih.2, parts]
    exact ⟨rfl, rfl⟩

def Skip.region : Skip → List Char → Region
  | .lineComment, _ => .lineComment
  | .blockComment, inner =>
    if closesBlock inner then .between false else .block (inner.getLast? = some '*')
  | .quoted, inner => if closesQuote inner then .between false else .quoted (escapes inner)
  | .directive, inner => .directive (continuation inner)

theorem Skip.read_on {kind : Skip} {inner : List Char} {c : Char} (goes : kind.goesOn inner c)
    (run : Run) (next : Option Char) :
    ReadState.read ⟨kind.region inner, run⟩ c next = (kind.region (inner ++ [c]), .skipped) := by
  cases kind with
  | lineComment =>
    have inside : c ≠ '\n' := by simpa [Skip.goesOn] using goes
    simp [Skip.region, ReadState.read, inside]
  | blockComment =>
    have inside : closesBlock inner = false := by simpa [Skip.goesOn] using goes
    simp only [Skip.region, inside, ReadState.read, closesBlock_concat, List.getLast?_concat]
    by_cases star : inner.getLast? = some '*' <;> by_cases slash : c = '/' <;> simp [star, slash]
  | quoted =>
    cases escaped : escapes inner with
    | true =>
      simp [Skip.region, not_closesQuote escaped, escaped, ReadState.read, closesQuote_concat,
        escapes_concat]
    | false =>
      obtain ⟨closed, inside⟩ : closesQuote inner = false ∧ c ≠ '\n' := by
        simpa [Skip.goesOn, escaped] using goes
      simp only [Skip.region, closed, escaped, ReadState.read, closesQuote_concat, escapes_concat,
        inside]
      by_cases backslash : c = '\\'
      · simp [backslash]
      · by_cases quote : c = '"' <;> simp [backslash, quote]
  | directive =>
    have inside : c ≠ '\n' ∨ continuation inner ≠ .none := by
      simpa [Skip.goesOn, continuesLine_iff] using goes
    simp only [Skip.region, ReadState.read, readDirective, continuation_concat]
    by_cases newline : c = '\n'
    · cases here : continuation inner with
      | none => simp [here, newline] at inside
      | backslash => simp [newline]
      | backslashReturn => simp [newline]
    · by_cases backslash : c = '\\'
      · simp [backslash]
      · simp only [newline, backslash, if_false]
        split_ifs <;> rfl

theorem Skip.read_stop {kind : Skip} {inner : List Char} {c : Char}
    (stops : kind.goesOn inner c = false) (run : Run) (next : Option Char) :
    ReadState.read ⟨kind.region inner, run⟩ c next = readBetween false c next := by
  cases kind with
  | lineComment =>
    have newline : c = '\n' := by simpa [Skip.goesOn] using stops
    simp [Skip.region, ReadState.read, newline, readBetween]
  | blockComment =>
    have closed : closesBlock inner := by simpa [Skip.goesOn] using stops
    simp only [Skip.region, closed, if_true, ReadState.read]
  | quoted =>
    obtain ⟨plain, ends⟩ : escapes inner = false ∧ (closesQuote inner = false → c = '\n') := by
      simpa [Skip.goesOn] using stops
    cases closed : closesQuote inner with
    | true => simp only [Skip.region, closed, if_true, ReadState.read]
    | false => simp [Skip.region, closed, plain, ReadState.read, ends closed, readBetween]
  | directive =>
    obtain ⟨newline, whole⟩ : c = '\n' ∧ continuation inner = .none := by
      simpa [Skip.goesOn, continuesLine_iff] using stops
    simp [Skip.region, ReadState.read, readDirective, newline, whole, readBetween]

theorem run_literals (before : List Char) :
    before.foldl Run.extend .empty = (before.rtakeWhile isLiteral).foldl Run.extend .empty := by
  induction before using List.reverseRecOn with
  | nil => rfl
  | append_singleton before c ih =>
    rw [List.rtakeWhile_concat, List.foldl_append]
    cases literal : isLiteral c with
    | true => rw [if_pos rfl, List.foldl_append, ih]
    | false =>
      have letter : (c.isAlphanum || c = '.') = false := literal
      simp [Run.extend, letter]

theorem run_fixed {run : Run} {text : List Char} (literal : ∀ c ∈ text, isLiteral c)
    (fixed : ∀ c, isLiteral c → run.extend c = run) : text.foldl Run.extend run = run := by
  induction text with
  | nil => rfl
  | cons c text ih =>
    rw [List.foldl_cons, fixed c (literal c List.mem_cons_self)]
    exact ih fun d member => literal d (List.mem_cons_of_mem c member)

theorem literals_hex {letters : List Char} (literal : ∀ c ∈ letters, isLiteral c) :
    letters.foldl Run.extend .empty = .hex ↔
      (['0', 'x'] <+: letters || ['0', 'X'] <+: letters) := by
  have kept : ∀ run : Run, run = .hex ∨ run = .other → ∀ c, isLiteral c → run.extend c = run := by
    intro run settled c letter
    have goes : c.isAlphanum || c = '.' := letter
    rcases settled with hex | other
    · rw [hex, Run.extend, if_pos goes]
    · rw [other, Run.extend, if_pos goes]
  cases letters with
  | nil => simp
  | cons c letters =>
    have goes : c.isAlphanum || c = '.' := literal c List.mem_cons_self
    have first : Run.empty.extend c = if c = '0' then .zero else .other := by
      rw [Run.extend, if_pos goes]
    rw [List.foldl_cons, first]
    by_cases zero : c = '0'
    · rw [if_pos zero]
      cases letters with
      | nil => simp [zero]
      | cons d letters =>
        have goes : d.isAlphanum || d = '.' :=
          literal d (List.mem_cons_of_mem c List.mem_cons_self)
        have second : Run.zero.extend d = if d = 'x' || d = 'X' then .hex else .other := by
          rw [Run.extend, if_pos goes]
        have rest : ∀ e ∈ letters, isLiteral e := fun e member =>
          literal e (List.mem_cons_of_mem c (List.mem_cons_of_mem d member))
        have hex := run_fixed rest (kept .hex (Or.inl rfl))
        have other := run_fixed rest (kept .other (Or.inr rfl))
        rw [List.foldl_cons, second]
        by_cases lower : d = 'x'
        · simp [zero, lower, hex]
        · by_cases upper : d = 'X'
          · simp [zero, upper, hex]
          · simp [zero, lower, upper, other, eq_comm]
    · have rest : ∀ e ∈ letters, isLiteral e := fun e member =>
        literal e (List.mem_cons_of_mem c member)
      have other := run_fixed rest (kept .other (Or.inr rfl))
      rw [if_neg zero, other]
      simp [zero, eq_comm]

theorem run_hex (before : List Char) :
    before.foldl Run.extend .empty = .hex ↔ endsHex before := by
  rw [run_literals, literals_hex fun c taken => List.mem_rtakeWhile_imp taken, endsHex]

def Tile.roles : Tile → List (Char × Role)
  | .token kind (c :: text) => (c, .opens kind) :: text.map (·, .continues)
  | tile => tile.text.map (·, .skipped)

/-- Where a tile begins, whatever comes next is read as between tokens. -/
def Stands (before after : List Char) (region : Region) : Prop :=
  ∀ c ∈ after.head?, ∀ next,
    (stateIn region before).read c next = readBetween (atLineStart before) c next

theorem stands_of_solid {before after : List Char} {region : Region}
    (reads : ∀ c ∈ after.head?, ∀ next,
      (stateIn region before).read c next = readBetween false c next)
    (solid : ∀ c ∈ after.head?, c = '\n' ∨ atLineStart before = false) :
    Stands before after region := by
  intro c first next
  rw [reads c first next]
  rcases solid c first with newline | begun
  · simp [readBetween, newline]
  · rw [begun]

theorem Skip.reads_opening {kind : Skip} {before inner : List Char} {region : Region}
    (stands : Stands before (kind.opening ++ inner) region)
    (placed : kind = .directive → atLineStart before) (following : Option Char) :
    rolesBefore following (stateIn region before) kind.opening =
        kind.opening.map (·, .skipped) ∧
      (stateIn region before).after kind.opening following =
        stateIn (kind.region []) (before ++ kind.opening) := by
  cases kind with
  | lineComment =>
    have first : (stateIn region before).read '/' (some '/') = (.lineComment, .skipped) := by
      rw [stands '/' rfl]
      simp [readBetween, isSpacing]
    have second : (stateIn .lineComment (before ++ ['/'])).read '/' following =
        (.lineComment, .skipped) := rfl
    rw [Skip.opening, rolesBefore_stateIn first, rolesBefore_stateIn second, after_stateIn first,
      after_stateIn second, List.append_assoc]
    exact ⟨rfl, rfl⟩
  | blockComment =>
    have first : (stateIn region before).read '/' (some '*') = (.blockOpening, .skipped) := by
      rw [stands '/' rfl]
      simp [readBetween, isSpacing]
    have second : (stateIn .blockOpening (before ++ ['/'])).read '*' following =
        (.block false, .skipped) := rfl
    rw [Skip.opening, rolesBefore_stateIn first, rolesBefore_stateIn second, after_stateIn first,
      after_stateIn second, List.append_assoc]
    exact ⟨rfl, rfl⟩
  | quoted =>
    have first : (stateIn region before).read '"' following = (.quoted false, .skipped) := by
      rw [stands '"' rfl]
      simp [readBetween, isSpacing]
    rw [Skip.opening, rolesBefore_stateIn first, after_stateIn first]
    exact ⟨rfl, rfl⟩
  | directive =>
    have first : (stateIn region before).read '#' following = (.directive .none, .skipped) := by
      rw [stands '#' rfl]
      simp [readBetween, isSpacing, placed rfl]
    rw [Skip.opening, rolesBefore_stateIn first, after_stateIn first]
    exact ⟨rfl, rfl⟩

theorem read_name (before : List Char) (c : Char) (next : Option Char) :
    (stateIn .word before).read c next =
      if nameGoesOn before c then (.word, .continues) else readBetween false c next := rfl

theorem read_number (before : List Char) (c : Char) (next : Option Char) :
    (stateIn (.number (endsExponent before)) before).read c next =
      if numberGoesOn before c then (.number (endsExponent (before ++ [c])), .continues)
      else readBetween false c next := by
  have hex : (decide (before.foldl Run.extend .empty ≠ .hex)) = !endsHex before := by
    cases ends : endsHex before with
    | true => simp [(run_hex before).mpr ends]
    | false => simpa [ends] using mt (run_hex before).mp
  have goes : continuesNumber (endsExponent before) (before.foldl Run.extend .empty) c =
      numberGoesOn before c := by
    rw [continuesNumber, hex]
    rfl
  have mark : endsExponent (before ++ [c]) = (c = 'e' || c = 'E') := by simp [endsExponent]
  rw [mark, ← goes]
  rfl

theorem readBetween_number {c : Char} {next : Option Char} (starts : startsNumber c next)
    (lineStart : Bool) : readBetween lineStart c next = (.number false, .opens .number) := by
  by_cases point : c = '.'
  · have digit : next.any Char.isDigit := by simpa [startsNumber, point] using starts
    simp [readBetween, point, isSpacing, startsName, digit]
  · have digit : c.isDigit := by simpa [startsNumber, point] using starts
    have name : continuesName c := by simp [continuesName, Char.isAlphanum, digit]
    exact readBetween_digit name (startsName_digit digit) lineStart next

theorem readBetween_punct {before after : List Char} {c : Char} (solid : isSpace c = false)
    (plain : ∀ kind, ¬ Opens before (c :: after) kind) (name : startsName c = false)
    (number : startsNumber c after.head? = false) :
    readBetween (atLineStart before) c after.head? = (.between false, .opens .punct) := by
  obtain ⟨spacing, newline⟩ : isSpacing c = false ∧ c ≠ '\n' := by
    simpa [isSpace, Bool.or_eq_false_iff] using solid
  have line : ¬ (c = '/' ∧ after.head? = some '/') :=
    fun stands => plain .lineComment (opens_iff.mpr stands)
  have block : ¬ (c = '/' ∧ after.head? = some '*') :=
    fun stands => plain .blockComment (opens_iff.mpr stands)
  have quote : c ≠ '"' := fun stands => plain .quoted (opens_iff.mpr stands)
  have directive : ¬ (atLineStart before ∧ c = '#') :=
    fun stands => plain .directive (opens_iff.mpr stands.symm)
  have digit : (c.isDigit || c = '.' && after.head?.any Char.isDigit) = false := number
  simp only [readBetween, newline, spacing, quote, name, digit, Bool.and_eq_true,
    decide_eq_true_eq, line, block, directive, if_false, Bool.false_eq_true]

structure ReadsTile (before after : List Char) (tile : Tile) (region : Region) : Prop where
  roles : rolesBefore after.head? (stateIn region before) tile.text = tile.roles
  next : ∃ region', (stateIn region before).after tile.text after.head? =
      stateIn region' (before ++ tile.text) ∧ Stands (before ++ tile.text) after region'

theorem Longest.reads_token {goesOn : List Char → Char → Bool} {before text after : List Char}
    {c : Char} {kind : TokenKind} {region : Region}
    (longest : Longest goesOn after (before ++ [c]) text) (inside : List Char → Region)
    (first : (stateIn region before).read c (text.head?.or after.head?) =
      (inside (before ++ [c]), .opens kind))
    (read : ∀ inner d next, (stateIn (inside inner) inner).read d next =
      if goesOn inner d then (inside (inner ++ [d]), .continues) else readBetween false d next)
    (starts : isSpace c = false) (solid : ∀ inner d, goesOn inner d → isSpace d = false) :
    ReadsTile before after (.token kind (c :: text)) region := by
  have step : ∀ inner d next, goesOn inner d →
      (stateIn (inside inner) ([] ++ inner)).read d next = (inside (inner ++ [d]), .continues) := by
    intro inner d next goes
    rw [List.nil_append, read, if_pos goes]
  obtain ⟨roles, next⟩ := longest.reads inside step
  have whole : before ++ [c] ++ text = before ++ c :: text := by simp
  refine ⟨?_, inside (before ++ c :: text), ?_, ?_⟩
  · rw [Tile.text, rolesBefore_stateIn first]
    exact congrArg _ roles
  · rw [Tile.text, after_stateIn first, ← whole]
    exact next
  · refine stands_of_solid (fun d next following => ?_) fun d next =>
      Or.inr (longest.begun starts solid)
    have stops := longest.stops d next
    rw [whole] at stops
    rw [Tile.text, read, if_neg (Bool.eq_false_iff.mp stops)]

/-- A tile that stands where one begins is read as one. -/
theorem Fits.reads {before after : List Char} {tile : Tile} {region : Region}
    (fits : Fits before after tile) (stands : Stands before (tile.text ++ after) region) :
    ReadsTile before after tile region := by
  cases fits with
  | @blank c space =>
    have read : (stateIn region before).read c after.head? =
        (.between (atLineStart (before ++ [c])), .skipped) := by
      rw [stands c rfl, atLineStart_concat, readBetween]
      by_cases newline : c = '\n'
      · simp [newline]
      · have spacing : isSpacing c := by simpa [isSpace, newline] using space
        simp [newline, spacing]
    refine ⟨?_, .between (atLineStart (before ++ [c])), ?_, fun d first next => rfl⟩
    · rw [Tile.text, rolesBefore_stateIn read]
      rfl
    · rw [Tile.text, after_stateIn read]
      rfl
  | @skipped kind inner placed body =>
    rw [Tile.text, List.append_assoc] at stands
    obtain ⟨opens, opened⟩ := Skip.reads_opening stands placed (inner.head?.or after.head?)
    have step : ∀ inner c next, kind.goesOn inner c →
        (stateIn (kind.region inner) (before ++ kind.opening ++ inner)).read c next =
          (kind.region (inner ++ [c]), .skipped) :=
      fun inner c next goes => Skip.read_on goes _ next
    obtain ⟨roles, read⟩ := body.reads kind.region step
    rw [List.append_nil] at roles read
    rw [List.nil_append] at read
    refine ⟨?_, kind.region inner, ?_, ?_⟩
    · rw [Tile.text, rolesBefore_append, opens, opened, roles]
      simp [Tile.roles, Tile.text]
    · rw [Tile.text, ReadState.after_append, opened, read, List.append_assoc]
    · have stops := body.stops
      rw [List.nil_append] at stops
      exact stands_of_solid (fun c first next => Skip.read_stop (stops c first) _ next)
        fun c first => Skip.settled before (stops c first)
  | @ident c text starts rest =>
    have first : (stateIn region before).read c (text.head?.or after.head?) =
        (.word, .opens .ident) := by
      rw [stands c rfl]
      exact readBetween_starts starts _ _
    exact rest.reads_token (fun _ => .word) first read_name
      (solid_of_name (continuesName_of_startsName starts)) fun inner d goes => solid_of_name goes
  | @number c text starts rest =>
    -- The first character is a digit or a point, so no exponent mark has been read.
    have mantissa : endsExponent (before ++ [c]) = false := by
      have other : c ≠ 'e' ∧ c ≠ 'E' := by
        constructor
        all_goals
          rintro rfl
          cases starts
      simp [endsExponent, other]
    have first : (stateIn region before).read c (text.head?.or after.head?) =
        (.number (endsExponent (before ++ [c])), .opens .number) := by
      rw [stands c rfl, mantissa]
      rw [List.head?_append] at starts
      exact readBetween_number starts _
    exact rest.reads_token (fun x => .number (endsExponent x)) first read_number
      (startsNumber_solid starts) fun inner d goes => numberGoesOn_solid goes
  | @punct c solid plain name number =>
    have read : (stateIn region before).read c after.head? = (.between false, .opens .punct) := by
      rw [stands c rfl]
      exact readBetween_punct solid plain name number
    refine ⟨?_, .between false, ?_, ?_⟩
    · rw [Tile.text, rolesBefore_stateIn read]
      rfl
    · rw [Tile.text, after_stateIn read]
      rfl
    · exact stands_of_solid (fun d next following => rfl) fun d next =>
        Or.inr (atLineStart_solid List.getLast?_concat solid)

theorem stands_start (source : List Char) : Stands [] source (.between true) :=
  fun _ _ _ => rfl

theorem Tiled.roles {before source : List Char} {tiles : List Tile}
    (tiled : Tiled before tiles source) {region : Region} (stands : Stands before source region) :
    Shader.roles (stateIn region before) source = tiles.flatMap Tile.roles := by
  induction tiled generalizing region with
  | done => rfl
  | @tile before after tile tiles fits rest ih =>
    obtain ⟨here, region', next, stands'⟩ := fits.reads stands
    rw [roles_append, here, next, ih stands', List.flatMap_cons]

theorem map_fst_alike (text : List Char) (role : Role) :
    (text.map (·, role)).map Prod.fst = text := by
  rw [List.map_map]
  exact List.map_id text

theorem roles_fresh (tiles : List Tile) :
    ∀ p ∈ (tiles.flatMap Tile.roles).head?, p.2 ≠ .continues := by
  induction tiles with
  | nil => simp
  | cons tile tiles ih =>
    rw [List.flatMap_cons, List.head?_append]
    cases tile with
    | blank c => simp [Tile.roles, Tile.text]
    | skipped kind inner => cases kind <;> simp [Tile.roles, Tile.text, Skip.opening]
    | token kind text =>
      cases text with
      | nil => exact ih
      | cons c text => simp [Tile.roles]

theorem gather_skipped (position : Nat) (text : List Char) :
    gather position (text.map (·, .skipped)) = [] := by
  induction text generalizing position with
  | nil => rfl
  | cons c text ih => exact ih _

theorem gather_token (position : Nat) (kind : TokenKind) (c : Char) (text : List Char) :
    gather position ((c, .opens kind) :: text.map (·, .continues)) =
      [⟨kind, position, c :: text⟩] := by
  have none : ∀ place, gather place (text.map (·, Role.continues)) = [] := by
    induction text with
    | nil => exact fun _ => rfl
    | cons d text ih => exact fun _ => ih _
  have goes : (text.map (·, Role.continues)).takeWhile (·.2 = .continues) =
      text.map (·, .continues) := by
    rw [List.takeWhile_eq_self_iff]
    simp
  simp only [gather, none, goes, map_fst_alike]

theorem gather_tile {before after : List Char} {tile : Tile} (fits : Fits before after tile)
    (position : Nat) : gather position tile.roles = (tile.token? position).toList := by
  cases fits with
  | blank space => exact gather_skipped _ _
  | skipped placed body => exact gather_skipped _ _
  | ident starts rest => exact gather_token _ _ _ _
  | number starts rest => exact gather_token _ _ _ _
  | punct solid plain name number => exact gather_token _ _ _ _

theorem Tile.map_fst_roles (tile : Tile) : tile.roles.map Prod.fst = tile.text := by
  cases tile with
  | blank c => rfl
  | skipped kind inner => exact map_fst_alike _ _
  | token kind text =>
    cases text with
    | nil => rfl
    | cons c text => exact congrArg (c :: ·) (map_fst_alike text .continues)

theorem Tiled.gathered {before source : List Char} {tiles : List Tile}
    (tiled : Tiled before tiles source) (position : Nat) :
    gather position (tiles.flatMap Tile.roles) = tokensAmong position tiles := by
  induction tiled generalizing position with
  | done => rfl
  | @tile before after tile tiles fits rest ih =>
    rw [List.flatMap_cons, gather_append _ _ _ (roles_fresh tiles), gather_tile fits,
      Tile.map_fst_roles, ih, tokensAmong_cons]

theorem Tiled.tokens {source : List Char} {tiles : List Tile} (tiled : Tiled [] tiles source) :
    Shader.tokens source = tokensAmong 0 tiles := by
  have roles : Shader.roles .start source = tiles.flatMap Tile.roles :=
    tiled.roles (stands_start source)
  rw [Shader.tokens, roles, tiled.gathered]

/- A number looks back at a name that ends where it begins: behind 0x a sign is no part of it. -/
example : (tokens "_0x.5e+3 .5e+3".toList).map Token.text =
    [['_', '0', 'x'], ['.', '5', 'e'], ['+'], ['3'], ['.', '5', 'e', '+', '3']] := by decide

end ShaderBench.Shader
