import Mathlib.Data.List.DropRight
import ShaderBench.Proofs.Shader.Parts
/-
What a source consists of: white space, skipped stretches and tokens. Each of these tiles goes on as
far as it can, from the character that it begins with.
-/
namespace ShaderBench.Shader
open Text

/-- A text that goes on as far as it can: every character goes on with what stands before it, and
    the character behind the text does not. -/
inductive Longest (goesOn : List Char → Char → Bool) (after : List Char) :
    List Char → List Char → Prop where
  | ends {before : List Char} (stops : ∀ c ∈ after.head?, goesOn before c = false) :
      Longest goesOn after before []
  | on {before text : List Char} {c : Char} (here : goesOn before c)
      (later : Longest goesOn after (before ++ [c]) text) : Longest goesOn after before (c :: text)

theorem exists_longest (goesOn : List Char → Char → Bool) (before source : List Char) :
    ∃ text after, source = text ++ after ∧ Longest goesOn after before text := by
  induction source generalizing before with
  | nil => exact ⟨[], [], rfl, .ends (by simp)⟩
  | cons c source ih =>
    cases here : goesOn before c with
    | true =>
      obtain ⟨text, after, parts, longest⟩ := ih (before ++ [c])
      exact ⟨c :: text, after, by rw [parts]; rfl, .on here longest⟩
    | false => exact ⟨[], c :: source, rfl, .ends (by simpa using here)⟩

section Longest
variable {goesOn : List Char → Char → Bool} {before text after : List Char}

theorem Longest.stops (longest : Longest goesOn after before text) :
    ∀ c ∈ after.head?, goesOn (before ++ text) c = false := by
  induction longest with
  | ends stops => simpa using stops
  | on here later ih => simpa using ih

theorem Longest.last (longest : Longest goesOn after before text) :
    ∀ c ∈ text.getLast?, ∃ inner, goesOn inner c := by
  induction longest with
  | ends stops => simp
  | @on before text c here later ih =>
    intro d last
    cases text with
    | nil =>
      have same : c = d := by simpa using last
      exact ⟨before, by rw [← same]; exact here⟩
    | cons e text =>
      rw [List.getLast?_cons_cons] at last
      exact ih d last

end Longest

instance Longest.decidable (goesOn : List Char → Char → Bool) (after : List Char) :
    ∀ before text, Decidable (Longest goesOn after before text)
  | before, [] =>
    decidable_of_iff (after.head?.all fun c => !goesOn before c)
      ⟨fun all => .ends (by simpa [Option.all_eq_true] using all),
        fun | .ends stops => by simpa [Option.all_eq_true] using stops⟩
  | before, c :: text =>
    have := Longest.decidable goesOn after (before ++ [c]) text
    decidable_of_iff (goesOn before c ∧ Longest goesOn after (before ++ [c]) text)
      ⟨fun both => .on both.1 both.2, fun | .on here later => ⟨here, later⟩⟩

inductive Skip where
  | lineComment
  | blockComment
  | quoted
  | directive
  deriving DecidableEq, Repr

def Skip.opening : Skip → List Char
  | .lineComment => ['/', '/']
  | .blockComment => ['/', '*']
  | .quoted => ['"']
  | .directive => ['#']

theorem suffix_one {a : Char} {s : List Char} : [a] <:+ s ↔ s.getLast? = some a := by
  rw [List.getLast?_eq_some_iff]
  constructor
  · rintro ⟨start, parts⟩
    exact ⟨start, parts.symm⟩
  · rintro ⟨start, parts⟩
    exact ⟨start, parts.symm⟩

theorem prefix_one {a : Char} {s : List Char} : [a] <+: s ↔ s.head? = some a := by
  cases s with
  | nil => simp
  | cons d s => simp [@eq_comm Char a d]

theorem suffix_two {a b c : Char} {s : List Char} :
    [a, b] <:+ s ++ [c] ↔ b = c ∧ s.getLast? = some a := by
  rw [List.suffix_concat_iff]
  constructor
  · rintro (none | ⟨start, parts, rest, whole⟩)
    · cases none
    · obtain ⟨first, last⟩ : start = [a] ∧ b = c := by
        have cut : [a] ++ [b] = start ++ [c] := parts
        have same := List.append_inj' cut rfl
        exact ⟨same.1.symm, by simpa using same.2⟩
      refine ⟨last, ?_⟩
      rw [← whole, first, List.getLast?_concat]
  · rintro ⟨last, ends⟩
    obtain ⟨rest, whole⟩ := List.getLast?_eq_some_iff.mp ends
    exact Or.inr ⟨[a], by rw [last]; rfl, rest, whole.symm⟩

def closesBlock (inner : List Char) : Bool := ['*', '/'] <:+ inner

theorem closesBlock_concat (inner : List Char) (c : Char) :
    closesBlock (inner ++ [c]) = (c = '/' && inner.getLast? = some '*') := by
  simp only [closesBlock, suffix_two, Bool.decide_and, eq_comm]

/-- Whether the next character is escaped: an odd number of backslashes stands before it. -/
def escapes (inner : List Char) : Bool := (inner.rtakeWhile (· = '\\')).length % 2 = 1

theorem escapes_concat (inner : List Char) (c : Char) :
    escapes (inner ++ [c]) = (c = '\\' && !escapes inner) := by
  by_cases backslash : c = '\\'
  · simp only [escapes, List.rtakeWhile_concat, backslash, decide_true, if_true,
      List.length_append, List.length_cons, List.length_nil, Bool.true_and]
    rcases Nat.mod_two_eq_zero_or_one (inner.rtakeWhile (· = '\\')).length with even | odd
    · simp [even, Nat.add_mod]
    · simp [odd, Nat.add_mod]
  · simp [escapes, backslash]

def closesQuote (inner : List Char) : Bool :=
  inner.getLast? = some '"' && !escapes inner.dropLast

theorem closesQuote_concat (inner : List Char) (c : Char) :
    closesQuote (inner ++ [c]) = (c = '"' && !escapes inner) := by
  simp [closesQuote]

theorem not_closesQuote {inner : List Char} (escaped : escapes inner) :
    closesQuote inner = false := by
  rcases List.eq_nil_or_concat inner with none | ⟨start, c, parts⟩
  · rw [none]
    rfl
  · rw [List.concat_eq_append] at parts
    rw [parts, escapes_concat] at escaped
    rw [parts, closesQuote_concat]
    have backslash : c = '\\' := by simp_all
    simp [backslash]

/-- Whether a line break that comes next belongs to the directive. -/
def continuesLine (inner : List Char) : Bool := ['\\'] <:+ inner || ['\\', '\r'] <:+ inner

def continuation (inner : List Char) : Continuation :=
  if ['\\'] <:+ inner then .backslash
  else if ['\\', '\r'] <:+ inner then .backslashReturn
  else .none

theorem continuation_concat (inner : List Char) (c : Char) :
    continuation (inner ++ [c]) =
      if c = '\\' then .backslash
      else if c = '\r' && continuation inner = .backslash then .backslashReturn
      else .none := by
  have before : continuation inner = .backslash ↔ inner.getLast? = some '\\' := by
    rw [continuation, ← suffix_one]
    split_ifs with backslash ret <;> simp [backslash]
  simp only [Bool.and_eq_true, decide_eq_true_eq, before]
  simp only [continuation, suffix_one, suffix_two, List.getLast?_concat, Option.some.injEq,
    @eq_comm Char '\r' c]

theorem continuesLine_iff (inner : List Char) :
    continuesLine inner = (continuation inner ≠ .none : Bool) := by
  rw [continuesLine, continuation]
  split_ifs with backslash ret <;> simp_all

/-- Whether a character belongs to a skipped stretch, after the part of it behind its opening. A line
    comment reaches to the line break and a block comment to its closing; a quoted string to its
    quote or to a line break that is not escaped; a directive to a line break that it does not
    continue over. At the end of the source all of them end. -/
def Skip.goesOn : Skip → List Char → Char → Bool
  | .lineComment, _, c => c ≠ '\n'
  | .blockComment, inner, _ => !closesBlock inner
  | .quoted, inner, c => escapes inner || !closesQuote inner && c ≠ '\n'
  | .directive, inner, c => c ≠ '\n' || continuesLine inner

def atLineStart (before : List Char) : Bool := (before.rtakeWhile (· ≠ '\n')).all isSpacing

theorem atLineStart_concat (before : List Char) (c : Char) :
    atLineStart (before ++ [c]) = (c = '\n' || isSpacing c && atLineStart before) := by
  by_cases newline : c = '\n'
  · simp [atLineStart, newline]
  · simp [atLineStart, newline, Bool.and_comm]

theorem atLineStart_solid {before : List Char} {c : Char} (last : before.getLast? = some c)
    (solid : isSpace c = false) : atLineStart before = false := by
  obtain ⟨start, parts⟩ := List.getLast?_eq_some_iff.mp last
  simp only [isSpace, Bool.or_eq_false_iff, decide_eq_false_iff_not] at solid
  rw [parts, atLineStart_concat]
  simp [solid]

/-- Where a skipped stretch begins. A directive is one only at the start of a line. -/
structure Opens (before source : List Char) (kind : Skip) : Prop where
  marked : kind.opening <+: source
  placed : kind = .directive → atLineStart before

theorem opens_iff {before rest : List Char} {c : Char} {kind : Skip} :
    Opens before (c :: rest) kind ↔
      match kind with
      | .lineComment => c = '/' ∧ rest.head? = some '/'
      | .blockComment => c = '/' ∧ rest.head? = some '*'
      | .quoted => c = '"'
      | .directive => c = '#' ∧ atLineStart before := by
  have both : Opens before (c :: rest) kind ↔
      kind.opening <+: c :: rest ∧ (kind = .directive → atLineStart before) :=
    ⟨fun opens => ⟨opens.marked, opens.placed⟩, fun ⟨marked, placed⟩ => ⟨marked, placed⟩⟩
  rw [both]
  have first : ∀ a, a = c ↔ c = a := fun a => eq_comm
  cases kind with
  | lineComment => simp [Skip.opening, prefix_one, first]
  | blockComment => simp [Skip.opening, prefix_one, first]
  | quoted => simp [Skip.opening, first]
  | directive => simp [Skip.opening, first]

theorem opens_first {before rest : List Char} {c : Char} {kind : Skip}
    (opens : Opens before (c :: rest) kind) : c = '/' ∨ c = '"' ∨ c = '#' := by
  rw [opens_iff] at opens
  cases kind with
  | lineComment => exact Or.inl opens.1
  | blockComment => exact Or.inl opens.1
  | quoted => exact Or.inr (Or.inl opens)
  | directive => exact Or.inr (Or.inr opens.1)

def nameGoesOn (_ : List Char) (c : Char) : Bool := continuesName c

def startsNumber (c : Char) (next : Option Char) : Bool :=
  c.isDigit || c = '.' && next.any Char.isDigit

def isLiteral (c : Char) : Bool := c.isAlphanum || c = '.'

def endsExponent (before : List Char) : Bool :=
  before.getLast? = some 'e' || before.getLast? = some 'E'

def endsHex (before : List Char) : Bool :=
  ['0', 'x'] <+: before.rtakeWhile isLiteral || ['0', 'X'] <+: before.rtakeWhile isLiteral

/-- A number looks back at all the text before, also in front of its own first character. -/
def numberGoesOn (before : List Char) (c : Char) : Bool :=
  isLiteral c || (c = '+' || c = '-') && endsExponent before && !endsHex before

/-- A character of white space, a skipped stretch with what stands behind its opening, or a token. -/
inductive Tile where
  | blank (c : Char)
  | skipped (kind : Skip) (inner : List Char)
  | token (kind : TokenKind) (text : List Char)
  deriving DecidableEq, Repr

def Tile.text : Tile → List Char
  | .blank c => [c]
  | .skipped kind inner => kind.opening ++ inner
  | .token _ text => text

inductive Fits (before after : List Char) : Tile → Prop where
  | blank {c : Char} (space : isSpace c) : Fits before after (.blank c)
  | skipped {kind : Skip} {inner : List Char} (placed : kind = .directive → atLineStart before)
      (body : Longest kind.goesOn after [] inner) : Fits before after (.skipped kind inner)
  | ident {c : Char} {text : List Char} (starts : startsName c)
      (rest : Longest nameGoesOn after (before ++ [c]) text) :
      Fits before after (.token .ident (c :: text))
  | number {c : Char} {text : List Char} (starts : startsNumber c (text ++ after).head?)
      (rest : Longest numberGoesOn after (before ++ [c]) text) :
      Fits before after (.token .number (c :: text))
  | punct {c : Char} (solid : isSpace c = false) (plain : ∀ kind, ¬ Opens before (c :: after) kind)
      (name : startsName c = false) (number : startsNumber c after.head? = false) :
      Fits before after (.token .punct [c])

theorem Fits.filled {before after : List Char} {tile : Tile} (fits : Fits before after tile) :
    tile.text ≠ [] := by
  cases fits with
  | blank space => simp [Tile.text]
  | @skipped kind inner placed body => cases kind <;> simp [Tile.text, Skip.opening]
  | ident starts rest => simp [Tile.text]
  | number starts rest => simp [Tile.text]
  | punct solid plain name number => simp [Tile.text]

theorem space_cases {c : Char} (space : isSpace c) :
    c = ' ' ∨ c = '\t' ∨ c = '\x0c' ∨ c = '\r' ∨ c = '\n' := by
  simpa only [isSpace, isSpacing, Bool.or_eq_true, decide_eq_true_eq, or_assoc] using space

theorem solid_of_name {c : Char} (name : continuesName c) : isSpace c = false := by
  obtain ⟨newline, spacing, -⟩ := name_other name
  simp [isSpace, newline, spacing]

theorem solid_of_spared {p : Char → Bool} {c : Char} (holds : p c)
    (spared : ∀ d ∈ [' ', '\t', '\x0c', '\r', '\n'], p d = false) : isSpace c = false := by
  cases space : isSpace c with
  | false => rfl
  | true =>
    have listed : c ∈ [' ', '\t', '\x0c', '\r', '\n'] := by simpa using space_cases space
    rw [spared c listed] at holds
    cases holds

theorem startsNumber_solid {c : Char} {next : Option Char} (starts : startsNumber c next) :
    isSpace c = false :=
  solid_of_spared (p := (startsNumber · next)) starts (by simp [startsNumber])

theorem numberGoesOn_solid {before : List Char} {c : Char} (goes : numberGoesOn before c) :
    isSpace c = false :=
  solid_of_spared (p := numberGoesOn before) goes (by simp [numberGoesOn, isLiteral])

theorem startsName_digit {c : Char} (digit : c.isDigit) : startsName c = false := by
  have below : c.toNat ≤ 57 :=
    UInt32.le_iff_toNat_le.mp (of_decide_eq_true (Bool.and_eq_true_iff.mp digit).2)
  by_contra starts
  rw [Bool.not_eq_false] at starts
  rcases Bool.or_eq_true_iff.mp starts with letter | under
  · rcases Bool.or_eq_true_iff.mp letter with upper | lower
    · have above : 65 ≤ c.toNat := UInt32.le_iff_toNat_le.mp (of_decide_eq_true upper).1
      omega
    · have above : 97 ≤ c.toNat :=
        UInt32.le_iff_toNat_le.mp (of_decide_eq_true (Bool.and_eq_true_iff.mp lower).1)
      omega
  · rw [of_decide_eq_true under] at digit
    cases digit

theorem startsName_number {c : Char} {next : Option Char} (starts : startsNumber c next) :
    startsName c = false := by
  simp only [startsNumber, Bool.or_eq_true, Bool.and_eq_true, decide_eq_true_eq] at starts
  rcases starts with digit | ⟨point, -⟩
  · exact startsName_digit digit
  · rw [point]
    decide

theorem Fits.token_first {before after text : List Char} {kind : TokenKind}
    (fits : Fits before after (.token kind text)) :
    ∃ c rest, text = c :: rest ∧ isSpace c = false ∧
      ∀ kind, ¬ Opens before (c :: (rest ++ after)) kind := by
  have others : ∀ (p : Char → Bool) c rest kind, p c → p '/' = false → p '"' = false →
      p '#' = false → ¬ Opens before (c :: rest) kind := by
    intro p c rest kind holds slash quote hash opens
    rcases opens_first opens with same | same | same
    · simp [same, slash] at holds
    · simp [same, quote] at holds
    · simp [same, hash] at holds
  cases fits with
  | @ident c text starts rest =>
    refine ⟨c, text, rfl, solid_of_name (continuesName_of_startsName starts), fun kind => ?_⟩
    exact others startsName c _ kind starts rfl rfl rfl
  | @number c text starts rest =>
    refine ⟨c, text, rfl, startsNumber_solid starts, fun kind => ?_⟩
    exact others (startsNumber · _) c _ kind starts rfl rfl rfl
  | @punct c solid plain name number => exact ⟨c, [], rfl, solid, plain⟩

theorem Longest.begun {goesOn : List Char → Char → Bool} {before text after : List Char} {c : Char}
    (longest : Longest goesOn after (before ++ [c]) text) (first : isSpace c = false)
    (solid : ∀ inner d, goesOn inner d → isSpace d = false) :
    atLineStart (before ++ c :: text) = false := by
  cases last : text.getLast? with
  | none =>
    rw [List.getLast?_eq_none_iff.mp last]
    exact atLineStart_solid List.getLast?_concat first
  | some d =>
    obtain ⟨inner, goes⟩ := longest.last d last
    refine atLineStart_solid ?_ (solid inner d goes)
    rw [List.getLast?_append, List.getLast?_cons, last]
    rfl

theorem Skip.closing {kind : Skip} {inner : List Char} {c : Char} (before : List Char)
    (stops : kind.goesOn inner c = false) :
    c = '\n' ∨ ∃ d, (d = '/' ∨ d = '"') ∧
      (before ++ (kind.opening ++ inner)).getLast? = some d := by
  have last : ∀ d, inner.getLast? = some d →
      (before ++ (kind.opening ++ inner)).getLast? = some d := by
    intro d ends
    rw [List.getLast?_append, List.getLast?_append, ends]
    rfl
  cases kind with
  | lineComment => exact Or.inl (by simpa [Skip.goesOn] using stops)
  | blockComment =>
    obtain ⟨start, parts⟩ : ['*', '/'] <:+ inner := by
      simpa [Skip.goesOn, closesBlock] using stops
    refine Or.inr ⟨'/', Or.inl rfl, last '/' ?_⟩
    rw [← parts, List.getLast?_append]
    rfl
  | quoted =>
    obtain ⟨plain, ends⟩ : escapes inner = false ∧ (closesQuote inner = false → c = '\n') := by
      simpa [Skip.goesOn] using stops
    cases closed : closesQuote inner with
    | true =>
      have quote : inner.getLast? = some '"' := by
        simp only [closesQuote, Bool.and_eq_true, decide_eq_true_eq] at closed
        exact closed.1
      exact Or.inr ⟨'"', Or.inr rfl, last '"' quote⟩
    | false => exact Or.inl (ends closed)
  | directive =>
    have newline : c = '\n' ∧ continuesLine inner = false := by
      simpa [Skip.goesOn] using stops
    exact Or.inl newline.1

theorem Skip.settled {kind : Skip} {inner : List Char} {c : Char} (before : List Char)
    (stops : kind.goesOn inner c = false) :
    c = '\n' ∨ atLineStart (before ++ (kind.opening ++ inner)) = false := by
  rcases Skip.closing before stops with newline | ⟨d, slash | quote, last⟩
  · exact Or.inl newline
  · exact Or.inr (atLineStart_solid last (by rw [slash]; rfl))
  · exact Or.inr (atLineStart_solid last (by rw [quote]; rfl))

theorem exists_tile (before : List Char) (c : Char) (source : List Char) :
    ∃ tile after, c :: source = tile.text ++ after ∧ Fits before after tile := by
  by_cases skipped : ∃ kind, Opens before (c :: source) kind
  · obtain ⟨kind, ⟨rest, marked⟩, placed⟩ := skipped
    obtain ⟨inner, after, parts, body⟩ := exists_longest kind.goesOn [] rest
    refine ⟨.skipped kind inner, after, ?_, .skipped placed body⟩
    rw [← marked, parts, Tile.text, List.append_assoc]
  rw [not_exists] at skipped
  cases space : isSpace c with
  | true => exact ⟨.blank c, source, rfl, .blank space⟩
  | false =>
    cases name : startsName c with
    | true =>
      obtain ⟨text, after, parts, rest⟩ := exists_longest nameGoesOn (before ++ [c]) source
      exact ⟨.token .ident (c :: text), after, by rw [parts]; rfl, .ident name rest⟩
    | false =>
      cases number : startsNumber c source.head? with
      | true =>
        obtain ⟨text, after, parts, rest⟩ := exists_longest numberGoesOn (before ++ [c]) source
        rw [parts] at number
        exact ⟨.token .number (c :: text), after, by rw [parts]; rfl, .number number rest⟩
      | false => exact ⟨.token .punct [c], source, rfl, .punct space skipped name number⟩

end ShaderBench.Shader
