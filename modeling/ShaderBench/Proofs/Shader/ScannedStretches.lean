import ShaderBench.Proofs.Shader.ByteScan
/-
The loops of the scan by bytes end where the stretches end that they pass over: between characters,
also where a loop leaps over an escaped character and comes down inside it.
-/
namespace ShaderBench.Shader
open Text

theorem utf8Size_ascii {c : Char} (ascii : isAscii c) : c.utf8Size = 1 := by
  rw [← length_charBytes, charBytes_ascii ascii]
  rfl

theorem narrow_literal : Narrow isLiteral := by
  intro c literal
  rcases Bool.or_eq_true_iff.mp literal with alphanumeric | point
  · exact decide_eq_true (Nat.le_of_lt_succ (ascii_of_isAlphanum alphanumeric))
  · rw [of_decide_eq_true point]
    rfl

theorem narrow_name (inner : List Char) : Narrow (nameGoesOn inner) := by
  intro c name
  rcases Bool.or_eq_true_iff.mp name with alphanumeric | under
  · exact narrow_literal c (Bool.or_eq_true_iff.mpr (Or.inl alphanumeric))
  · rw [of_decide_eq_true under]
    rfl

theorem narrow_number (inner : List Char) : Narrow (numberGoesOn inner) := by
  intro c goes
  rcases Bool.or_eq_true_iff.mp goes with literal | signed
  · exact narrow_literal c literal
  · have sign : c = '+' ∨ c = '-' := by
      simp only [Bool.and_eq_true, Bool.or_eq_true, decide_eq_true_eq] at signed
      exact signed.1.1
    rcases sign with plus | minus
    · rw [plus]
      rfl
    · rw [minus]
      rfl

theorem numberGoesOn_bytesOf (inner : List Char) (c : Char) :
    numberGoesOn (bytesOf inner) c = numberGoesOn inner c := by
  have exponent : endsExponent (bytesOf inner) = endsExponent inner := by
    simp only [endsExponent, bytesOf_getLast? (a := 'e') rfl, bytesOf_getLast? (a := 'E') rfl]
  have hex : endsHex (bytesOf inner) = endsHex inner := by
    rw [endsHex, bytesOf_rtakeWhile narrow_literal, endsHex]
  rw [numberGoesOn, exponent, hex, numberGoesOn]

theorem first_byte {before rest source : List Char} {c : Char}
    (parts : source = before ++ c :: rest) (ascii : isAscii c) :
    (bytesOf source)[byteLength before]? = some c := by
  rw [parts]
  exact (byte_ascii ascii _ _).mpr rfl

theorem Longest.walked {goesOn : List Char → Char → Bool} {before text after : List Char}
    (longest : Longest goesOn after before text) (narrow : ∀ inner, Narrow (goesOn inner))
    (seen : ∀ inner c, goesOn (bytesOf inner) c = goesOn inner c) {source : List Char}
    (parts : source = before ++ (text ++ after)) :
    walk (bytesOf source) (tokenMove goesOn (bytesOf source)) (byteLength before) =
      byteLength (before ++ text) := by
  induction longest with
  | @ends before stops =>
    rw [List.nil_append] at parts
    cases after with
    | nil =>
      rw [walk_end (by simp [parts]), length_bytesOf, parts]
    | cons c after =>
      obtain ⟨b, listed, here⟩ := exists_first before c after
      rw [← parts] at here
      have stop : tokenMove goesOn (bytesOf source) (byteLength before) b = .stop 0 := by
        have none : goesOn before b = false := by
          rw [charBytes_narrow (narrow before) listed]
          exact stops c rfl
        rw [tokenMove, parts, bytesOf_take, seen, none]
        rfl
      rw [walk_stop here stop, List.append_nil, Nat.add_zero]
  | @on before text c here later ih =>
    have ascii := narrow before c here
    have first := first_byte parts ascii
    have goes : tokenMove goesOn (bytesOf source) (byteLength before) c = .on 0 := by
      rw [tokenMove, parts, bytesOf_take, seen, here]
      rfl
    have place : byteLength before + 0 + 1 = byteLength (before ++ [c]) := by
      simp [utf8Size_ascii ascii]
    rw [walk_on first goes, place, ih (by simpa using parts)]
    simp

section Over
variable {before rest source : List Char} {c : Char} {move : Nat → Char → Move}

/-- A loop that passes over the bytes of no ASCII character comes from inside a character to its
    end. -/
theorem walk_wide (parts : source = before ++ c :: rest) (wide : isAscii c = false)
    (goes : ∀ place b, isAscii b = false → move place b = .on 0) {k : Nat}
    (within : k ≤ c.utf8Size) :
    walk (bytesOf source) move (byteLength before + k) =
      walk (bytesOf source) move (byteLength before + c.utf8Size) := by
  induction left : c.utf8Size - k generalizing k with
  | zero =>
    have last : k = c.utf8Size := by omega
    rw [last]
  | succ left ih =>
    have inside : k < c.utf8Size := by omega
    have byte : k < (charBytes c).length := by rwa [length_charBytes]
    have here := bytesOf_at before c rest inside
    rw [← parts, List.getElem?_eq_getElem byte] at here
    have next := goes (byteLength before + k) _ (charBytes_wide wide _ (List.getElem_mem byte))
    rw [walk_on here next]
    exact ih (k := k + 1) inside (by omega)

theorem walk_over (parts : source = before ++ c :: rest)
    (here : isAscii c → move (byteLength before) c = .on 0)
    (goes : ∀ place b, isAscii b = false → move place b = .on 0) :
    walk (bytesOf source) move (byteLength before) =
      walk (bytesOf source) move (byteLength before + c.utf8Size) := by
  cases ascii : isAscii c with
  | true =>
    rw [walk_on (first_byte parts ascii) (here ascii), utf8Size_ascii ascii]
  | false => exact walk_wide parts ascii goes (Nat.zero_le _)

theorem walk_leapt (parts : source = before ++ c :: rest)
    (goes : ∀ place b, isAscii b = false → move place b = .on 0) :
    walk (bytesOf source) move (byteLength before + 1) =
      walk (bytesOf source) move (byteLength before + c.utf8Size) := by
  cases ascii : isAscii c with
  | true => rw [utf8Size_ascii ascii]
  | false => exact walk_wide parts ascii goes c.utf8Size_pos

end Over

theorem ne_of_wide {a b : Char} (ascii : isAscii a) (wide : isAscii b = false) : b ≠ a := by
  rintro rfl
  rw [ascii] at wide
  cases wide

theorem Skip.move_wide (bytes : List Char) (kind : Skip) (place : Nat) {b : Char}
    (wide : isAscii b = false) : kind.move bytes place b = .on 0 := by
  have newline : b ≠ '\n' := ne_of_wide rfl wide
  have star : b ≠ '*' := ne_of_wide rfl wide
  have backslash : b ≠ '\\' := ne_of_wide rfl wide
  have quote : b ≠ '"' := ne_of_wide rfl wide
  cases kind <;> simp [Skip.move, newline, star, backslash, quote]

def leap (inner rest : List Char) : Nat :=
  match continuation inner with
  | .none => 0
  | .backslash =>
    if rest.head? = some '\n' then 1
    else if rest.head? = some '\r' && rest[1]? = some '\n' then 2
    else 0
  | .backslashReturn => if rest.head? = some '\n' then 1 else 0

/-- Where the loop over a skipped stretch ends, seen from a place between characters: the loop may
    have closed the stretch, or have leapt over what comes next. -/
def Skip.ahead (bytes : List Char) (place : Nat) (kind : Skip) (inner rest : List Char) : Nat :=
  match kind with
  | .lineComment => walk bytes (Skip.move bytes .lineComment) place
  | .blockComment =>
    if closesBlock inner then place
    else if inner.getLast? = some '*' && rest.head? = some '/' then place + 1
    else walk bytes (Skip.move bytes .blockComment) place
  | .quoted =>
    if closesQuote inner then place
    else walk bytes (Skip.move bytes .quoted) (place + if escapes inner then 1 else 0)
  | .directive => walk bytes (Skip.move bytes .directive) (place + leap inner rest)

section Ahead
variable {before rest source inner : List Char} {c : Char}

theorem second_byte {a : Char} (parts : source = before ++ c :: rest) (ascii : isAscii c)
    (ascii' : isAscii a) :
    (bytesOf source)[byteLength before + 1]? = some a ↔ rest.head? = some a := by
  have place : byteLength before + 1 = byteLength (before ++ [c]) := by
    simp [utf8Size_ascii ascii]
  rw [parts, place, ← List.singleton_append, ← List.append_assoc]
  exact byte_ascii ascii' _ _

theorem third_byte {a d : Char} (parts : source = before ++ c :: rest) (ascii : isAscii c)
    (next : rest.head? = some d) (ascii' : isAscii d) (ascii'' : isAscii a) :
    (bytesOf source)[byteLength before + 2]? = some a ↔ rest[1]? = some a := by
  obtain ⟨tail, same⟩ := List.head?_eq_some_iff.mp next
  have place : byteLength before + 2 = byteLength (before ++ [c]) + 1 := by
    simp [utf8Size_ascii ascii]
  rw [place, same, List.getElem?_cons_succ, ← List.head?_eq_getElem?]
  exact second_byte (by simp [parts, same]) ascii' ascii''

theorem Skip.ahead_block (parts : source = before ++ c :: rest)
    (goes : Skip.goesOn .blockComment inner c) :
    Skip.ahead (bytesOf source) (byteLength before) .blockComment inner (c :: rest) =
      Skip.ahead (bytesOf source) (byteLength before + c.utf8Size) .blockComment (inner ++ [c])
        rest := by
  have wide := fun place b => Skip.move_wide (bytesOf source) .blockComment place (b := b)
  have inside : closesBlock inner = false := by simpa [Skip.goesOn] using goes
  by_cases closes : inner.getLast? = some '*' ∧ c = '/'
  · -- At the star the loop has ended already, behind this slash.
    have one : Char.utf8Size '/' = 1 := rfl
    simp [Skip.ahead, inside, closesBlock_concat, closes, one]
  · have open' : closesBlock (inner ++ [c]) = false := by
      rw [closesBlock_concat]
      simp only [not_and] at closes
      by_cases slash : c = '/' <;> simp_all
    have still : (decide (inner.getLast? = some '*') && decide ((c :: rest).head? = some '/')) =
        false := by
      simpa using closes
    rw [Skip.ahead, inside, still, Skip.ahead, open', List.getLast?_concat]
    by_cases ends : c = '*' ∧ rest.head? = some '/'
    · have first := first_byte parts (by rw [ends.1]; rfl)
      have second := (second_byte parts (by rw [ends.1]; rfl) rfl).mpr ends.2
      have stop : Skip.move (bytesOf source) .blockComment (byteLength before) c = .stop 2 := by
        simp [Skip.move, ends.1, second]
      have one : Char.utf8Size '*' = 1 := rfl
      simp [walk_stop first stop, ends, one]
    · have stays : (decide (some c = some '*') && decide (rest.head? = some '/')) = false := by
        simpa using ends
      rw [stays]
      refine walk_over parts (fun ascii => ?_) wide
      rw [Skip.move, if_neg]
      simpa [second_byte (a := '/') parts ascii rfl] using ends

theorem Skip.ahead_quoted (parts : source = before ++ c :: rest)
    (goes : Skip.goesOn .quoted inner c) :
    Skip.ahead (bytesOf source) (byteLength before) .quoted inner (c :: rest) =
      Skip.ahead (bytesOf source) (byteLength before + c.utf8Size) .quoted (inner ++ [c]) rest := by
  have wide := fun place b => Skip.move_wide (bytesOf source) .quoted place (b := b)
  cases escaped : escapes inner with
  | true =>
    -- At the backslash the loop has leapt over the first byte of this character.
    have leapt := walk_leapt parts wide
    simp [Skip.ahead, not_closesQuote escaped, escaped, closesQuote_concat, escapes_concat, leapt]
  | false =>
    obtain ⟨closed, inside⟩ : closesQuote inner = false ∧ c ≠ '\n' := by
      simpa [Skip.goesOn, escaped] using goes
    by_cases backslash : c = '\\'
    · have first := first_byte parts (by rw [backslash]; rfl)
      have on : Skip.move (bytesOf source) .quoted (byteLength before) c = .on 1 := by
        simp [Skip.move, backslash]
      have one : Char.utf8Size '\\' = 1 := rfl
      simp [Skip.ahead, closed, escaped, closesQuote_concat, escapes_concat, walk_on first on,
        backslash, one]
    by_cases quote : c = '"'
    · have first := first_byte parts (by rw [quote]; rfl)
      have stop : Skip.move (bytesOf source) .quoted (byteLength before) c = .stop 1 := by
        simp [Skip.move, quote]
      have one : Char.utf8Size '"' = 1 := rfl
      simp [Skip.ahead, closed, escaped, closesQuote_concat, walk_stop first stop, quote, one]
    · have passed := walk_over parts
        (fun _ => by simp [Skip.move, backslash, quote, inside]) wide
      simp [Skip.ahead, closed, escaped, closesQuote_concat, escapes_concat, backslash, quote,
        passed]

/-- At a backslash the loop over a directive leaps over the line break that it continues over. -/
theorem directive_leaps (inner : List Char) (parts : source = before ++ '\\' :: rest) :
    Skip.move (bytesOf source) .directive (byteLength before) '\\' =
      .on (leap (inner ++ ['\\']) rest) := by
  have feed := second_byte (a := '\n') parts rfl rfl
  have ret := second_byte (a := '\r') parts rfl rfl
  simp only [leap, continuation_concat, if_true]
  by_cases next : rest.head? = some '\n'
  · simp [Skip.move, feed.mpr next, next]
  by_cases next' : rest.head? = some '\r'
  · have third := third_byte (a := '\n') parts rfl next' rfl rfl
    by_cases last : rest[1]? = some '\n'
    · simp [Skip.move, ret.mpr next', third.mpr last, next', last]
    · simp [Skip.move, ret.mpr next', mt third.mp last, next', last]
  · simp [Skip.move, mt feed.mp next, mt ret.mp next', next, next']

theorem Skip.ahead_directive (parts : source = before ++ c :: rest)
    (goes : Skip.goesOn .directive inner c) :
    Skip.ahead (bytesOf source) (byteLength before) .directive inner (c :: rest) =
      Skip.ahead (bytesOf source) (byteLength before + c.utf8Size) .directive (inner ++ [c])
        rest := by
  have wide := fun place b => Skip.move_wide (bytesOf source) .directive place (b := b)
  have continues : c ≠ '\n' ∨ continuation inner ≠ .none := by
    simpa [Skip.goesOn, continuesLine_iff] using goes
  rw [Skip.ahead, Skip.ahead]
  by_cases newline : c = '\n'
  · have one : Char.utf8Size '\n' = 1 := rfl
    cases before : continuation inner with
    | none => simp [newline, before] at continues
    | backslash => simp [leap, before, continuation_concat, newline, one]
    | backslashReturn => simp [leap, before, continuation_concat, newline, one]
  have zero : rest[0]? = rest.head? := List.head?_eq_getElem?.symm
  -- The return of a continued line has been leapt over together with its line break.
  by_cases leaps : continuation inner = .backslash ∧ c = '\r' ∧ rest.head? = some '\n'
  · have one : Char.utf8Size '\r' = 1 := rfl
    simp [leap, leaps, zero, continuation_concat, one, Nat.add_assoc]
  have still : leap inner (c :: rest) = 0 := by
    unfold leap
    cases before : continuation inner <;> simp_all
  by_cases backslash : c = '\\'
  · subst backslash
    have one : Char.utf8Size '\\' = 1 := rfl
    have leaps' := directive_leaps inner parts
    rw [still, Nat.add_zero, walk_on (first_byte parts rfl) leaps', one, Nat.add_right_comm]
  · have still' : leap (inner ++ [c]) rest = 0 := by
      rw [leap, continuation_concat, if_neg backslash]
      split_ifs <;> simp_all
    have passed := walk_over parts (fun _ => by simp [Skip.move, backslash, newline]) wide
    rw [still, still', Nat.add_zero, Nat.add_zero, passed]

theorem Skip.ahead_on {kind : Skip} (parts : source = before ++ c :: rest)
    (goes : kind.goesOn inner c) :
    kind.ahead (bytesOf source) (byteLength before) inner (c :: rest) =
      kind.ahead (bytesOf source) (byteLength before + c.utf8Size) (inner ++ [c]) rest := by
  cases kind with
  | lineComment =>
    have inside : c ≠ '\n' := by simpa [Skip.goesOn] using goes
    exact walk_over parts (fun _ => if_neg inside)
      fun place b => Skip.move_wide (bytesOf source) .lineComment place
  | blockComment => exact Skip.ahead_block parts goes
  | quoted => exact Skip.ahead_quoted parts goes
  | directive => exact Skip.ahead_directive parts goes

theorem Skip.ahead_end {kind : Skip} (parts : source = before ++ rest)
    (stops : ∀ c ∈ rest.head?, kind.goesOn inner c = false) :
    kind.ahead (bytesOf source) (byteLength before) inner rest = byteLength before := by
  cases rest with
  | nil =>
    have whole : (bytesOf source).length = byteLength before := by simp [parts]
    have ends : ∀ move more, walk (bytesOf source) move (byteLength before + more) =
        byteLength before := fun move more => by rw [walk_end (by omega), whole]
    cases kind with
    | lineComment => exact ends _ 0
    | blockComment =>
      have last := ends (Skip.move (bytesOf source) .blockComment) 0
      rw [Nat.add_zero] at last
      simp [Skip.ahead, last]
    | quoted => simp [Skip.ahead, ends]
    | directive => exact ends _ _
  | cons c rest =>
    have stop := stops c rfl
    cases kind with
    | lineComment =>
      have newline : c = '\n' := by simpa [Skip.goesOn] using stop
      have first := first_byte parts (by rw [newline]; rfl)
      have here : Skip.move (bytesOf source) .lineComment (byteLength before) c = .stop 0 :=
        if_pos newline
      exact walk_stop first here
    | blockComment =>
      have closed : closesBlock inner := by simpa [Skip.goesOn] using stop
      simp [Skip.ahead, closed]
    | quoted =>
      obtain ⟨plain, ends⟩ : escapes inner = false ∧ (closesQuote inner = false → c = '\n') := by
        simpa [Skip.goesOn] using stop
      cases closed : closesQuote inner with
      | true => simp [Skip.ahead, closed]
      | false =>
        have newline := ends closed
        have first := first_byte parts (by rw [newline]; rfl)
        have here : Skip.move (bytesOf source) .quoted (byteLength before) c = .stop 0 := by
          simp [Skip.move, newline]
        simp [Skip.ahead, closed, plain, walk_stop first here]
    | directive =>
      obtain ⟨newline, whole⟩ : c = '\n' ∧ continuation inner = .none := by
        simpa [Skip.goesOn, continuesLine_iff] using stop
      have first := first_byte parts (by rw [newline]; rfl)
      have here : Skip.move (bytesOf source) .directive (byteLength before) c = .stop 0 := by
        simp [Skip.move, newline]
      simp [Skip.ahead, leap, whole, walk_stop first here]

theorem Skip.past_opening {kind : Skip} (parts : source = before ++ (kind.opening ++ rest)) :
    kind.past (bytesOf source) (byteLength before) =
      kind.ahead (bytesOf source) (byteLength (before ++ kind.opening)) [] rest := by
  have wide := fun place b => Skip.move_wide (bytesOf source) kind place (b := b)
  cases kind with
  | lineComment =>
    have first := walk_over parts (fun _ => rfl) wide
    have parts' : source = before ++ ['/'] ++ '/' :: rest := by simp [parts, Skip.opening]
    have second := walk_over parts' (fun _ => rfl) wide
    rw [byteLength_append] at second
    rw [Skip.past, Skip.ahead, byteLength_append]
    exact first.trans second
  | blockComment =>
    rw [byteLength_append]
    rfl
  | quoted =>
    rw [byteLength_append]
    rfl
  | directive =>
    have first := walk_over parts (fun _ => by simp [Skip.move]) wide
    rw [Skip.past, Skip.ahead, byteLength_append]
    exact first

theorem Longest.passed {kind : Skip} {after text : List Char}
    (longest : Longest kind.goesOn after inner text) (parts : source = before ++ (text ++ after)) :
    kind.ahead (bytesOf source) (byteLength before) inner (text ++ after) =
      byteLength (before ++ text) := by
  induction longest generalizing before with
  | ends stops =>
    rw [List.append_nil]
    exact Skip.ahead_end parts stops
  | @on inner text c here later ih =>
    have parts' : source = before ++ [c] ++ (text ++ after) := by simp [parts]
    have rest := ih parts'
    rw [List.append_assoc, List.singleton_append] at rest
    have parts'' : source = before ++ c :: (text ++ after) := by simp [parts]
    rw [List.cons_append, Skip.ahead_on parts'' here, ← rest]
    simp

end Ahead

end ShaderBench.Shader
