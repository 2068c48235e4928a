import ShaderBench.Proofs.Shader.Tiles
import ShaderBench.Proofs.Text.Encoding
/-
The scan of a source by its bytes. It stands at a byte, looks at the bytes around it, passes over
what it finds there by one of its loops, and cuts the text of a token out of the source. A cut
inside a character fails, and the scan with it.
-/
namespace ShaderBench.Shader
open Text

/-- A loop goes on behind this byte and so many more, or ends so many bytes further. -/
inductive Move where
  | on (more : Nat)
  | stop (behind : Nat)

/-- Where a loop ends that begins at a place. One that gets past the last byte ends at the end. -/
def walk (bytes : List Char) (move : Nat → Char → Move) (place : Nat) : Nat :=
  if inside : place < bytes.length then
    match move place bytes[place] with
    | .on more => walk bytes move (place + more + 1)
    | .stop behind => place + behind
  else bytes.length
termination_by bytes.length - place

section Walk
variable {bytes : List Char} {move : Nat → Char → Move} {place : Nat} {b : Char}

theorem walk_end (past : bytes.length ≤ place) : walk bytes move place = bytes.length := by
  rw [walk, dif_neg (Nat.not_lt.mpr past)]

theorem walk_on {more : Nat} (here : bytes[place]? = some b) (goes : move place b = .on more) :
    walk bytes move place = walk bytes move (place + more + 1) := by
  obtain ⟨inside, same⟩ := List.getElem?_eq_some_iff.mp here
  rw [walk, dif_pos inside, same, goes]

theorem walk_stop {behind : Nat} (here : bytes[place]? = some b)
    (stops : move place b = .stop behind) : walk bytes move place = place + behind := by
  obtain ⟨inside, same⟩ := List.getElem?_eq_some_iff.mp here
  rw [walk, dif_pos inside, same, stops]

end Walk

theorem le_walk (bytes : List Char) (move : Nat → Char → Move) (place : Nat) :
    min place bytes.length ≤ walk bytes move place := by
  fun_induction walk bytes move place with
  | case1 place inside more goes ih => omega
  | case2 place inside behind stops => omega
  | case3 place past => omega

def Skip.move (bytes : List Char) : Skip → Nat → Char → Move
  | .lineComment, _, b => if b = '\n' then .stop 0 else .on 0
  | .blockComment, place, b =>
    if b = '*' && bytes[place + 1]? = some '/' then .stop 2 else .on 0
  | .quoted, _, b =>
    if b = '\\' then .on 1
    else if b = '"' then .stop 1
    else if b = '\n' then .stop 0
    else .on 0
  | .directive, place, b =>
    if b = '\\' && bytes[place + 1]? = some '\n' then .on 1
    else if b = '\\' && bytes[place + 1]? = some '\r' && bytes[place + 2]? = some '\n' then .on 2
    else if b = '\n' then .stop 0
    else .on 0

def Skip.entry : Skip → Nat
  | .lineComment | .directive => 0
  | .quoted => 1
  | .blockComment => 2

def Skip.past (bytes : List Char) (kind : Skip) (place : Nat) : Nat :=
  walk bytes (kind.move bytes) (place + kind.entry)

def tokenMove (goesOn : List Char → Char → Bool) (bytes : List Char) (place : Nat) (b : Char) :
    Move :=
  if goesOn (bytes.take place) b then .on 0 else .stop 0

def skipAt? (bytes : List Char) (place : Nat) (b : Char) (lineStart : Bool) : Option Skip :=
  if b = '#' && lineStart then some .directive
  else if b = '/' && bytes[place + 1]? = some '/' then some .lineComment
  else if b = '/' && bytes[place + 1]? = some '*' then some .blockComment
  else if b = '"' then some .quoted
  else none

theorem walk_forward {bytes : List Char} {move : Nat → Char → Move} {place : Nat}
    (inside : place < bytes.length) (goes : move place bytes[place] = .on 0) :
    place < walk bytes move place := by
  have kept := le_walk bytes move (place + 0 + 1)
  rw [walk_on (List.getElem?_eq_getElem inside) goes]
  omega

theorem skip_forward {bytes : List Char} {place : Nat} {lineStart : Bool} {kind : Skip}
    (inside : place < bytes.length)
    (skipped : skipAt? bytes place bytes[place] lineStart = some kind) :
    place < kind.past bytes place := by
  have kept := le_walk bytes (kind.move bytes) (place + kind.entry)
  -- Two of the loops begin at the first byte and pass it; the others begin behind it.
  unfold skipAt? at skipped
  split_ifs at skipped with directive line block quote
  all_goals
    cases skipped
  · exact walk_forward inside (by simp_all [Skip.move])
  · exact walk_forward inside (by simp_all [Skip.move])
  · simp only [Skip.past, Skip.entry] at kept ⊢
    omega
  · simp only [Skip.past, Skip.entry] at kept ⊢
    omega

theorem name_forward {bytes : List Char} {place : Nat} (inside : place < bytes.length)
    (name : startsName bytes[place]) : place < walk bytes (tokenMove nameGoesOn bytes) place :=
  walk_forward inside (if_pos (continuesName_of_startsName name))

theorem numberGoesOn_first {before : List Char} {c : Char} {next : Option Char}
    (starts : startsNumber c next) : numberGoesOn before c := by
  have literal : isLiteral c := by
    simp only [startsNumber, isLiteral, Char.isAlphanum, Bool.or_eq_true,
      Bool.and_eq_true] at starts ⊢
    rcases starts with digit | ⟨point, -⟩
    · exact Or.inl (Or.inr digit)
    · exact Or.inr point
  simp [numberGoesOn, literal]

theorem number_forward {bytes : List Char} {place : Nat} {next : Option Char}
    (inside : place < bytes.length) (number : startsNumber bytes[place] next) :
    place < walk bytes (tokenMove numberGoesOn bytes) place :=
  walk_forward inside (if_pos (numberGoesOn_first number))

/-- What is found at a place, and how the scan goes on behind it. -/
structure Turn (place : Nat) where
  found : Option Token
  next : Nat
  lineStart : Bool
  forward : place < next

def cutToken? (source : List Char) (kind : TokenKind) (place stop : Nat) (forward : place < stop) :
    Option (Turn place) :=
  (slice? place stop source).map fun text => ⟨some ⟨kind, place, text⟩, stop, false, forward⟩

def tokenTurn? (source : List Char) (place : Nat) (inside : place < (bytesOf source).length) :
    Option (Turn place) :=
  let bytes := bytesOf source
  if name : startsName bytes[place] then
    cutToken? source .ident place (walk bytes (tokenMove nameGoesOn bytes) place)
      (name_forward inside name)
  else if number : startsNumber bytes[place] bytes[place + 1]? then
    cutToken? source .number place (walk bytes (tokenMove numberGoesOn bytes) place)
      (number_forward inside number)
  else
    (cutAt? place source).map fun (_, rest) =>
      let c := rest.headD '\uFFFD'
      ⟨some ⟨.punct, place, [c]⟩, place + c.utf8Size, false, Nat.lt_add_of_pos_right c.utf8Size_pos⟩

def turn? (source : List Char) (place : Nat) (inside : place < (bytesOf source).length)
    (lineStart : Bool) : Option (Turn place) :=
  let bytes := bytesOf source
  if bytes[place] = '\n' then some ⟨none, place + 1, true, Nat.lt_succ_self place⟩
  else if isSpacing bytes[place] then some ⟨none, place + 1, lineStart, Nat.lt_succ_self place⟩
  else match skipped : skipAt? bytes place bytes[place] lineStart with
    | some kind =>
      some ⟨none, kind.past bytes place, kind = .directive, skip_forward inside skipped⟩
    | none => tokenTurn? source place inside

/-- The scan from a place on; nothing where a cut fails. -/
def scanFrom (source : List Char) (place : Nat) (lineStart : Bool) : Option (List Token) :=
  if inside : place < (bytesOf source).length then
    match turn? source place inside lineStart with
    | none => none
    | some turn => (scanFrom source turn.next turn.lineStart).map (turn.found.toList ++ ·)
  else some []
termination_by (bytesOf source).length - place
decreasing_by
  have forward := turn.forward
  omega

def scan (source : List Char) : Option (List Token) := scanFrom source 0 true

end ShaderBench.Shader
