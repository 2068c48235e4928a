import ShaderBench.Proofs.Shader.Places
import ShaderBench.Proofs.Shader.ScannedStretches
import ShaderBench.Proofs.Shader.TiledTokens
/-
The scan of a source by its bytes finds the tiles that the source is laid with, so the tokens tile
it.
-/
namespace ShaderBench.Shader
open Text

theorem skipAt?_eq_some {before rest source : List Char} {b c : Char} {kind : Skip}
    (parts : source = before ++ c :: rest) (listed : b ∈ charBytes c) :
    skipAt? (bytesOf source) (byteLength before) b (atLineStart before) = some kind ↔
      Opens before (c :: rest) kind := by
  have alike : ∀ a, isAscii a → (b = a ↔ c = a) := by
    intro a ascii
    simpa using charBytes_narrow (narrow_eq ascii) listed
  have slash : ∀ a, isAscii a → ((b = '/' ∧ (bytesOf source)[byteLength before + 1]? = some a) ↔
      c = '/' ∧ rest.head? = some a) := by
    intro a ascii
    rw [alike '/' rfl]
    refine and_congr_right fun same => ?_
    exact second_byte parts (by rw [same]; rfl) ascii
  rw [opens_iff]
  simp only [skipAt?, Bool.and_eq_true, decide_eq_true_eq, slash '/' rfl, slash '*' rfl,
    alike '#' rfl, alike '"' rfl]
  split_ifs with directive line block quote
  all_goals cases kind <;> simp_all

/-- What the scan finds at a place where a tile lies, and where it stands behind the tile. -/
structure Finds (source before after : List Char) (tile : Tile) (turn : Turn (byteLength before)) :
    Prop where
  found : turn.found = tile.token? (byteLength before)
  next : turn.next = byteLength (before ++ tile.text)
  lineStart : ∀ c ∈ after.head?, c ≠ '\n' → turn.lineStart = atLineStart (before ++ tile.text)

section Turn
variable {source before after text : List Char} {c b : Char} {lineStart : Bool}

theorem cutToken?_eq {kind : TokenKind} (parts : source = before ++ (text ++ after)) {stop : Nat}
    (forward : byteLength before < stop) (ends : stop = byteLength (before ++ text)) :
    cutToken? source kind (byteLength before) stop forward =
      some ⟨some ⟨kind, byteLength before, text⟩, stop, false, forward⟩ := by
  have cut : slice? (byteLength before) stop source = some text := by
    rw [ends, byteLength_append, parts, ← List.append_assoc]
    exact slice?_append before text after
  rw [cutToken?, cut]
  rfl

theorem exists_byte (parts : source = before ++ c :: after)
    (inside : byteLength before < (bytesOf source).length) :
    ∃ b ∈ charBytes c, (bytesOf source)[byteLength before] = b := by
  obtain ⟨b, listed, here⟩ := exists_first before c after
  rw [← parts] at here
  obtain ⟨_, same⟩ := List.getElem?_eq_some_iff.mp here
  exact ⟨b, listed, same⟩

theorem narrow_digit : Narrow Char.isDigit := by
  intro c digit
  refine narrow_literal c ?_
  simp [isLiteral, Char.isAlphanum, digit]

theorem narrow_starts : Narrow startsName :=
  fun c starts => narrow_name [] c (continuesName_of_startsName starts)

theorem narrow_number_first (next : Option Char) : Narrow (startsNumber · next) :=
  fun c starts => narrow_number [] c (numberGoesOn_first starts)

theorem startsNumber_byte (parts : source = before ++ c :: after) (listed : b ∈ charBytes c) :
    startsNumber b (bytesOf source)[byteLength before + 1]? = startsNumber c after.head? := by
  rw [charBytes_narrow (narrow_number_first _) listed, startsNumber, startsNumber]
  by_cases point : c = '.'
  · have one : Char.utf8Size '.' = 1 := rfl
    have ahead := byte_narrow narrow_digit (before ++ [c]) after
    have place : byteLength (before ++ [c]) = byteLength before + 1 := by simp [point, one]
    rw [place, List.append_assoc, List.singleton_append, ← parts] at ahead
    rw [ahead]
  · simp [point]

theorem tokenTurn?_finds {kind : TokenKind} (fits : Fits before after (.token kind text))
    (parts : source = before ++ (text ++ after))
    (inside : byteLength before < (bytesOf source).length) :
    ∃ turn, tokenTurn? source (byteLength before) inside = some turn ∧
      Finds source before after (.token kind text) turn := by
  cases fits with
  | @ident c text starts rest =>
    obtain ⟨b, listed, here⟩ := exists_byte parts inside
    rw [charBytes_ascii (narrow_starts c starts), List.mem_singleton] at listed
    have name : startsName (bytesOf source)[byteLength before] := by rwa [here, listed]
    have first := continuesName_of_startsName starts
    have whole : Longest nameGoesOn after before (c :: text) := .on first rest
    have ends := whole.walked narrow_name (fun _ _ => rfl) parts
    have begun := rest.begun (solid_of_name first) fun _ d goes => solid_of_name goes
    refine ⟨_, (dif_pos name).trans (cutToken?_eq parts _ ends), rfl, ends, ?_⟩
    exact fun _ _ _ => begun.symm
  | @number c text starts rest =>
    obtain ⟨b, listed, here⟩ := exists_byte parts inside
    have start : startsNumber b (bytesOf source)[byteLength before + 1]? := by
      rwa [startsNumber_byte parts listed]
    rw [charBytes_ascii (narrow_number_first _ c starts), List.mem_singleton] at listed
    have name : ¬ startsName (bytesOf source)[byteLength before] := by
      rw [here, listed, startsName_number starts]
      exact Bool.false_ne_true
    have number : startsNumber (bytesOf source)[byteLength before]
        (bytesOf source)[byteLength before + 1]? := by rwa [here]
    have whole : Longest numberGoesOn after before (c :: text) :=
      .on (numberGoesOn_first starts) rest
    have ends := whole.walked narrow_number numberGoesOn_bytesOf parts
    have begun := rest.begun (startsNumber_solid starts) fun _ d goes => numberGoesOn_solid goes
    refine ⟨_, (dif_neg name).trans ((dif_pos number).trans (cutToken?_eq parts _ ends)), rfl, ends,
      ?_⟩
    exact fun _ _ _ => begun.symm
  | @punct c solid plain name number =>
    obtain ⟨b, listed, here⟩ := exists_byte parts inside
    have name' : ¬ startsName (bytesOf source)[byteLength before] := by
      rw [here, charBytes_narrow narrow_starts listed, name]
      exact Bool.false_ne_true
    have number' : ¬ startsNumber (bytesOf source)[byteLength before]
        (bytesOf source)[byteLength before + 1]? := by
      rw [here, startsNumber_byte parts listed]
      exact Bool.eq_false_iff.mp number
    have cut : cutAt? (byteLength before) source = some (before, c :: after) := by
      rw [parts]
      exact cutAt?_append before (c :: after)
    let turn : Turn (byteLength before) := ⟨some ⟨.punct, byteLength before, [c]⟩,
      byteLength before + c.utf8Size, false, Nat.lt_add_of_pos_right c.utf8Size_pos⟩
    refine ⟨turn, (dif_neg name').trans ((dif_neg number').trans ?_), rfl, ?_, ?_⟩
    · rw [cut]
      rfl
    · simp [Tile.text, turn]
    · exact fun _ _ _ => (atLineStart_solid List.getLast?_concat solid).symm

theorem narrow_space : Narrow isSpace := by
  intro c space
  rcases space_cases space with blank | tab | feed | ret | newline
  all_goals
    subst c
    rfl

theorem turn?_blank (parts : source = before ++ c :: after) (space : isSpace c)
    (flag : c ≠ '\n' → lineStart = atLineStart before)
    (inside : byteLength before < (bytesOf source).length) :
    ∃ turn, turn? source (byteLength before) inside lineStart = some turn ∧
      Finds source before after (.blank c) turn := by
  obtain ⟨b, listed, here⟩ := exists_byte parts inside
  have ascii := narrow_space c space
  rw [charBytes_ascii ascii, List.mem_singleton] at listed
  rw [listed] at here
  have next : byteLength before + 1 = byteLength (before ++ [c]) := by
    simp [utf8Size_ascii ascii]
  by_cases newline : c = '\n'
  · have first : (bytesOf source)[byteLength before] = '\n' := here.trans newline
    refine ⟨_, if_pos first, rfl, next, fun _ _ _ => ?_⟩
    simp [Tile.text, atLineStart_concat, newline]
  · have spacing : isSpacing c := by simpa [isSpace, newline] using space
    have first : (bytesOf source)[byteLength before] ≠ '\n' := by rwa [here]
    have second : isSpacing (bytesOf source)[byteLength before] := by rwa [here]
    refine ⟨_, (if_neg first).trans (if_pos second), rfl, next, fun _ _ _ => ?_⟩
    simp [Tile.text, atLineStart_concat, newline, spacing, flag newline]

theorem turn?_solid (parts : source = before ++ c :: after) (solid : isSpace c = false)
    (flag : lineStart = atLineStart before)
    (inside : byteLength before < (bytesOf source).length) :
    (∀ kind, Opens before (c :: after) kind → ∃ forward,
      turn? source (byteLength before) inside lineStart =
        some ⟨none, kind.past (bytesOf source) (byteLength before), kind = .directive, forward⟩) ∧
    ((∀ kind, ¬ Opens before (c :: after) kind) →
      turn? source (byteLength before) inside lineStart =
        tokenTurn? source (byteLength before) inside) := by
  obtain ⟨b, listed, here⟩ := exists_byte parts inside
  have solid' : isSpace b = false := by rw [charBytes_narrow narrow_space listed, solid]
  obtain ⟨spacing, newline⟩ : isSpacing b = false ∧ b ≠ '\n' := by
    simpa [isSpace, Bool.or_eq_false_iff] using solid'
  have found : ∀ kind, skipAt? (bytesOf source) (byteLength before)
      (bytesOf source)[byteLength before] lineStart = some kind ↔
        Opens before (c :: after) kind := by
    intro kind
    rw [here, flag]
    exact skipAt?_eq_some parts listed
  have first : (bytesOf source)[byteLength before] ≠ '\n' := by rwa [here]
  have second : ¬ isSpacing (bytesOf source)[byteLength before] := by
    rw [here, spacing]
    exact Bool.false_ne_true
  simp only [turn?, if_neg first, if_neg second]
  split
  · rename_i kind skipped
    refine ⟨fun kind' opens => ?_, fun plain => absurd ((found kind).mp skipped) (plain kind)⟩
    have same := (found kind').mpr opens
    rw [skipped, Option.some.injEq] at same
    subst same
    exact ⟨skip_forward inside skipped, rfl⟩
  · rename_i none
    refine ⟨fun kind opens => ?_, fun _ => rfl⟩
    rw [(found kind).mpr opens] at none
    cases none

theorem turn?_token {kind : TokenKind} (fits : Fits before after (.token kind text))
    (parts : source = before ++ (text ++ after))
    (flag : ∀ c ∈ (text ++ after).head?, c ≠ '\n' → lineStart = atLineStart before)
    (inside : byteLength before < (bytesOf source).length) :
    ∃ turn, turn? source (byteLength before) inside lineStart = some turn ∧
      Finds source before after (.token kind text) turn := by
  obtain ⟨turn, turned, finds⟩ := tokenTurn?_finds fits parts inside
  obtain ⟨c, rest, first, solid, plain⟩ := fits.token_first
  rw [first, List.cons_append] at parts flag
  have flag' : lineStart = atLineStart before := by
    refine flag c rfl ?_
    rintro rfl
    cases solid
  refine ⟨turn, ?_, finds⟩
  rw [(turn?_solid parts solid flag' inside).2 plain, turned]

theorem turn?_finds {tile : Tile} (fits : Fits before after tile)
    (parts : source = before ++ (tile.text ++ after))
    (flag : ∀ c ∈ (tile.text ++ after).head?, c ≠ '\n' → lineStart = atLineStart before)
    (inside : byteLength before < (bytesOf source).length) :
    ∃ turn, turn? source (byteLength before) inside lineStart = some turn ∧
      Finds source before after tile turn := by
  cases fits with
  | @blank c space => exact turn?_blank parts space (flag c rfl) inside
  | @skipped kind inner placed body =>
    rw [Tile.text, List.append_assoc] at parts flag
    obtain ⟨c, rest, opening, solid⟩ : ∃ c rest, kind.opening = c :: rest ∧ isSpace c = false := by
      cases kind <;> exact ⟨_, _, rfl, by decide⟩
    have flag' : lineStart = atLineStart before := by
      rw [opening] at flag
      refine flag c rfl ?_
      rintro rfl
      cases solid
    have opens : Opens before (c :: (rest ++ (inner ++ after))) kind := by
      rw [← List.cons_append, ← opening]
      exact ⟨List.prefix_append _ _, placed⟩
    have parts' : source = before ++ c :: (rest ++ (inner ++ after)) := by
      rw [parts, opening]
      rfl
    obtain ⟨forward, turned⟩ := (turn?_solid parts' solid flag' inside).1 kind opens
    have passed : kind.past (bytesOf source) (byteLength before) =
        byteLength (before ++ (kind.opening ++ inner)) := by
      have behind : source = before ++ kind.opening ++ (inner ++ after) := by simp [parts]
      rw [Skip.past_opening parts, body.passed behind, List.append_assoc]
    refine ⟨_, turned, rfl, passed, fun d next other => ?_⟩
    -- Only a line break follows a directive, so where the mark matters it has been taken back.
    have stops := body.stops d next
    rw [List.nil_append] at stops
    have begun := (Skip.settled before stops).resolve_left other
    have plain : kind ≠ .directive := by
      rintro rfl
      simp [Skip.goesOn, other] at stops
    simp [Tile.text, begun, plain]
  | ident starts rest => exact turn?_token (.ident starts rest) parts flag inside
  | number starts rest => exact turn?_token (.number starts rest) parts flag inside
  | punct solid plain name number =>
    exact turn?_token (.punct solid plain name number) parts flag inside

end Turn

theorem Tiled.scanned {before rest source : List Char} {tiles : List Tile} {lineStart : Bool}
    (tiled : Tiled before tiles rest) (parts : source = before ++ rest)
    (flag : ∀ c ∈ rest.head?, c ≠ '\n' → lineStart = atLineStart before) :
    scanFrom source (byteLength before) lineStart =
      some (tokensAmong (byteLength before) tiles) := by
  induction tiled generalizing lineStart with
  | done =>
    rw [scanFrom, dif_neg (by simp [parts])]
    rfl
  | @tile before after tile tiles fits later ih =>
    have inside : byteLength before < (bytesOf source).length := by
      obtain ⟨c, rest, first⟩ := List.exists_cons_of_ne_nil fits.filled
      have wide := c.utf8Size_pos
      rw [length_bytesOf, parts, first]
      simp only [byteLength_append, byteLength_cons]
      omega
    obtain ⟨turn, turned, found, next, start⟩ := turn?_finds fits parts flag inside
    have rest := ih (by rw [parts, List.append_assoc]) start
    rw [scanFrom, dif_pos inside, turned]
    simp only [next, rest, found, Option.map_some, tokensAmong_cons, ← byteLength_append]

/-- The scan by bytes succeeds, and the tokens that it finds are the tokens of the source. -/
theorem scan_eq (source : List Char) : scan source = some (tokens source) := by
  obtain ⟨tiles, tiled⟩ := exists_tiled [] source
  have scanned : scanFrom source 0 true = some (tokensAmong 0 tiles) :=
    tiled.scanned rfl fun _ _ _ => rfl
  rw [scan, scanned, tiled.tokens]

/-- The tokens of a source tile it, with white space, comments, quoted strings and directives
    between them. The scan by bytes finds them, from every source; they are not empty, lie one
    behind the other within the source, and begin and end between characters. Each byte belongs
    either to a token or to one of the tiles between the tokens. -/
theorem tokens_tile (source : List Char) :
    scan source = some (tokens source) ∧
      (tokens source).Pairwise (fun t u => t.stop ≤ u.start) ∧
      (∀ t ∈ tokens source, t.start < t.stop ∧ t.stop ≤ byteLength source ∧
        slice? t.start t.stop source = some t.text) ∧
      ∃ tiles, Tiled [] tiles source ∧ tokens source = tokensAmong 0 tiles ∧
        ∀ place < byteLength source,
          (∃ t ∈ tokens source, t.start ≤ place ∧ place < t.stop) ↔
            ¬ ∃ placed ∈ laid 0 tiles, placed.2.isGap ∧ Covers placed place := by
  obtain ⟨tiles, tiled⟩ := exists_tiled [] source
  have among := tiled.tokens
  refine ⟨scan_eq source, Apart.ordered (tokens_apart source), fun t listed => ?_, tiles, tiled,
    among, fun place within => ?_⟩
  · have wide : t.start < t.stop := gather_wide listed
    rw [among] at listed
    obtain ⟨before, after, parts, place⟩ := laid_parts (mem_tokensAmong.mp listed)
    rw [tiled.texts, Tile.text] at parts
    have start : t.start = byteLength before := place.trans (Nat.zero_add _)
    refine ⟨wide, ?_, ?_⟩
    · simp only [parts, Token.stop, start, byteLength_append]
      omega
    · rw [Token.stop, start, parts]
      exact slice?_append before t.text after
  · rw [among, covered_iff]
    exact laid_covered (Nat.zero_le place) (by rwa [tiled.texts, Nat.zero_add])

end ShaderBench.Shader
