import ShaderBench.Text.Word
/-
Zero initializers: a declaration of a float or a vector of floats with the initial value 0 gets
one of its own type.
-/
namespace ShaderBench.Shader
open Text

def some1? (p : Char → Bool) (s : List Char) : Option (List Char × List Char) :=
  match s.takeWhile p with
  | [] => none
  | found => some (found, s.dropWhile p)

def afterMark? (mark : Char) (s : List Char) : Option (List Char) :=
  match s.dropWhile isBlank with
  | c :: rest => if c = mark then some rest else none
  | [] => none

def afterExactly? : List Char → List Char → Option (List Char)
  | [], s => some s
  | w :: ws, c :: s => if w = c then afterExactly? ws s else none
  | _ :: _, [] => none

/-- A name and a zero initializer after a type: blanks, the name, an equals sign, 0 and a
    semicolon, with or without blanks between them. -/
def zeroNamed? (s : List Char) : Option (List Char × List Char) := do
  let (_, s) ← some1? isBlank s
  let (name, s) ← some1? isWord s
  let s ← afterMark? '=' s
  let s ← afterMark? '0' s
  let s ← afterMark? ';' s
  some (name, s)

inductive FloatShape where
  | vector
  | scalar
  deriving DecidableEq, Repr

def FloatShape.size? : FloatShape → List Char → Option (List Char × List Char)
  | .scalar, s => some ([], s)
  | .vector, c :: s => if c = '2' || c = '3' || c = '4' then some ([c], s) else none
  | .vector, [] => none

def FloatShape.zero : FloatShape → List Char → List Char
  | .scalar, _ => "0.0".toList
  | .vector, type => type ++ "(0.0)".toList

/-- A declaration with a zero initializer at the start of a text: its new form, and the rest. -/
def zeroDeclaration? (shape : FloatShape) (s : List Char) : Option (List Char × List Char) := do
  let rest ← afterExactly? "float".toList s
  let (size, rest) ← shape.size? rest
  let (name, rest) ← zeroNamed? rest
  let type := "float".toList ++ size
  some (type ++ ' ' :: (name ++ " = ".toList ++ shape.zero type ++ [';']), rest)

theorem some1?_length_le {p : Char → Bool} {s found rest : List Char}
    (h : some1? p s = some (found, rest)) : rest.length ≤ s.length := by
  unfold some1? at h
  split at h
  · cases h
  · cases h
    exact (List.dropWhile_suffix p).length_le

theorem afterMark?_length_le {mark : Char} {s rest : List Char}
    (h : afterMark? mark s = some rest) : rest.length ≤ s.length := by
  unfold afterMark? at h
  have blanks := (List.dropWhile_suffix (l := s) isBlank).length_le
  split at h
  · rename_i c t hdrop
    split at h
    · cases h
      simp only [hdrop, List.length_cons] at blanks
      omega
    · cases h
  · cases h

theorem afterExactly?_length {word s rest : List Char} (h : afterExactly? word s = some rest) :
    s.length = word.length + rest.length := by
  induction word generalizing s with
  | nil => cases h; simp
  | cons w ws ih =>
    cases s with
    | nil => cases h
    | cons c s =>
      simp only [afterExactly?] at h
      split at h
      · have := ih h
        simp only [List.length_cons]
        omega
      · cases h

theorem zeroNamed?_length_le {s name rest : List Char} (h : zeroNamed? s = some (name, rest)) :
    rest.length ≤ s.length := by
  simp only [zeroNamed?, bind, Option.bind_eq_some_iff, Prod.exists, Option.some.injEq,
    Prod.mk.injEq] at h
  obtain ⟨_, s₁, h₁, _, s₂, h₂, s₃, h₃, s₄, h₄, s₅, h₅, _, rfl⟩ := h
  have := some1?_length_le h₁
  have := some1?_length_le h₂
  have := afterMark?_length_le h₃
  have := afterMark?_length_le h₄
  have := afterMark?_length_le h₅
  omega

theorem FloatShape.size?_length_le {shape : FloatShape} {s size rest : List Char}
    (h : shape.size? s = some (size, rest)) : rest.length ≤ s.length := by
  cases shape with
  | scalar => cases h; exact Nat.le_refl _
  | vector =>
    cases s with
    | nil => cases h
    | cons c s =>
      simp only [FloatShape.size?] at h
      split at h
      · cases h
        simp
      · cases h

theorem zeroDeclaration?_shorter {shape : FloatShape} {s text rest : List Char}
    (h : zeroDeclaration? shape s = some (text, rest)) : rest.length < s.length := by
  simp only [zeroDeclaration?, bind, Option.bind_eq_some_iff, Prod.exists, Option.some.injEq,
    Prod.mk.injEq] at h
  obtain ⟨s₁, h₁, _, s₂, h₂, _, s₃, h₃, _, rfl⟩ := h
  have word := afterExactly?_length h₁
  have size := FloatShape.size?_length_le h₂
  have body := zeroNamed?_length_le h₃
  have : "float".toList.length = 5 := rfl
  omega

/-- Gives the declarations of a shape that begin at the start of a word and have a zero
    initializer their new form. -/
def coerce (shape : FloatShape) (afterWord : Bool) : List Char → List Char
  | [] => []
  | c :: s =>
    match _found : if afterWord then none else zeroDeclaration? shape (c :: s) with
    | some (text, rest) => text ++ coerce shape false rest
    | none => c :: coerce shape (isWord c) s
termination_by s => s.length
decreasing_by
  · split at _found
    · cases _found
    · exact zeroDeclaration?_shorter _found
  · simp

def coerceZeros (s : List Char) : List Char := coerce .scalar false (coerce .vector false s)

end ShaderBench.Shader
