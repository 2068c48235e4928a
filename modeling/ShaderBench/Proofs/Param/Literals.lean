import Mathlib.Data.List.Chain
import Mathlib.Data.List.DropRight
import ShaderBench.Proofs.Param.LastDeclared
import ShaderBench.Proofs.Shader.Declarations
/-
The initializers that give a parameter its default, as a grammar of tokens. What is read is a little
more than a number or a constructor of numbers: signs pile up, and a list stands without its
constructor.
-/
namespace ShaderBench.Param
open Shader

def Numeral (t : Token) (x : Single) : Prop :=
  t.kind = .number ∧ Single.read? (t.text.rdropWhile fun c => c = 'f' || c = 'F') = some x

inductive Signed : List Token → Single → Prop
  | bare {t : Token} {x : Single} (numeral : Numeral t x) : Signed [t] x
  | plus {sign t : Token} {x : Single} (plus : sign.isPunct '+') (numeral : Numeral t x) :
      Signed [sign, t] x
  | minus {sign t : Token} {x : Single} (minus : sign.isPunct '-') (numeral : Numeral t x) :
      Signed [sign, t] (-x)

/-- A number with at most one sign behind any number of plus signs. -/
inductive Oversigned : List Token → Single → Prop
  | signed {ts : List Token} {x : Single} (number : Signed ts x) : Oversigned ts x
  | plus {sign : Token} {ts : List Token} {x : Single} (plus : sign.isPunct '+')
      (number : Oversigned ts x) : Oversigned (sign :: ts) x

inductive Listed (form : List Token → Single → Prop) : List Token → List Single → Prop
  | last {ts : List Token} {x : Single} (number : form ts x) : Listed form ts [x]
  | more {ts us : List Token} {t : Token} {x : Single} {xs : List Single} (number : form ts x)
      (comma : t.isPunct ',') (rest : Listed form us xs) : Listed form (ts ++ t :: us) (x :: xs)

def constructorNames : Kind → List String
  | .vector2 => ["float2", "vec2"]
  | .vector3 | .color => ["float3", "vec3"]
  | .scalar | .boolean => []

inductive Constructed (kind : Kind) (form : List Token → Single → Prop) :
    List Token → List Single → Prop
  | call {name opening closing : Token} {ts : List Token} {xs : List Single}
      (ident : name.isIdent) (type : String.ofList name.text ∈ constructorNames kind)
      (opens : opening.isPunct '(') (closes : closing.isPunct ')') (numbers : Listed form ts xs) :
      Constructed kind form (name :: opening :: (ts ++ [closing])) xs

/-- The components of a value are some numbers in order, or all one number. Truth values have no
    literals. -/
def Fills (kind : Kind) (xs : List Single) (v : Value) : Prop :=
  kind ≠ .boolean ∧ v.fits kind ∧
    (v.components = xs ∨ ∃ x, xs = [x] ∧ ∀ y ∈ v.components, y = x)

/-- A literal: a number, or a constructor of the kind around one number or one for each component. -/
inductive Literal (kind : Kind) (ts : List Token) (v : Value) : Prop
  | number {x : Single} (number : Signed ts x) (fills : Fills kind [x] v)
  | constructor {xs : List Single} (call : Constructed kind Signed ts xs) (fills : Fills kind xs v)

inductive Accepted (kind : Kind) (ts : List Token) (v : Value) : Prop
  | numbers {xs : List Single} (numbers : Listed Oversigned ts xs) (fills : Fills kind xs v)
  | constructor {xs : List Single} (call : Constructed kind Oversigned ts xs)
      (fills : Fills kind xs v)

def isSign (t : Token) : Bool := t.isPunct '+' || t.isPunct '-'

/-- Of two tokens in a row one is no sign. -/
def Alone (s t : Token) : Prop := isSign s → ¬ isSign t

structure Strict (ts : List Token) : Prop where
  signs : ts.IsChain Alone
  commas : ∀ t ∈ ts, t.isPunct ',' → ∃ name ∈ ts.head?, name.isIdent

section Marks
variable {t : Token} {x : Single}

theorem isPunct_other {c d : Char} (mark : t.isPunct c) (other : c ≠ d) : t.isPunct d = false := by
  simp [Token.isPunct, (isPunct_iff.mp mark).2, other]

theorem number_not_punct (number : t.kind = .number) (c : Char) : t.isPunct c = false := by
  simp [Token.isPunct, number]

theorem Numeral.not_punct (numeral : Numeral t x) (c : Char) : t.isPunct c = false :=
  number_not_punct numeral.1 c

theorem not_numeral {c : Char} (mark : t.isPunct c) (x : Single) : ¬ Numeral t x := by
  intro numeral
  rw [numeral.not_punct] at mark
  cases mark

theorem Numeral.not_ident (numeral : Numeral t x) : t.isIdent = false := by
  simp [Token.isIdent, numeral.1]

theorem Numeral.not_sign (numeral : Numeral t x) : isSign t = false := by
  simp [isSign, numeral.not_punct]

theorem punct_not_ident {c : Char} (mark : t.isPunct c) : t.isIdent = false := by
  simp [Token.isIdent, (isPunct_iff.mp mark).1]

theorem isSign_other {c : Char} (mark : t.isPunct c) (other : c ≠ '+') (other' : c ≠ '-') :
    isSign t = false := by
  simp [isSign, isPunct_other mark other, isPunct_other mark other']

theorem numeral_iff : Numeral t x ↔ t.kind = .number ∧ numberOf? t.text = some x := Iff.rfl

end Marks

section Grammar
variable {kind : Kind} {ts : List Token} {t : Token} {x : Single} {xs : List Single} {v : Value}

theorem oversigned_cons : Oversigned (t :: ts) x ↔
    ts = [] ∧ Numeral t x ∨
      t.isPunct '-' ∧ (∃ s y, ts = [s] ∧ Numeral s y ∧ x = -y) ∨
      t.isPunct '+' ∧ Oversigned ts x := by
  constructor
  · rintro (⟨⟨numeral⟩ | ⟨plus, numeral⟩ | ⟨minus, numeral⟩⟩ | ⟨plus, number⟩)
    · exact .inl ⟨rfl, numeral⟩
    · exact .inr (.inr ⟨plus, .signed (.bare numeral)⟩)
    · exact .inr (.inl ⟨minus, _, _, rfl, numeral, rfl⟩)
    · exact .inr (.inr ⟨plus, number⟩)
  · rintro (⟨rfl, numeral⟩ | ⟨minus, s, y, rfl, numeral, rfl⟩ | ⟨plus, number⟩)
    · exact .signed (.bare numeral)
    · exact .signed (.minus minus numeral)
    · exact .plus plus number

theorem Oversigned.begins (number : Oversigned ts x) :
    ∃ first rest, ts = first :: rest ∧ first.isIdent = false := by
  rcases number with ⟨⟨numeral⟩ | ⟨plus, numeral⟩ | ⟨minus, numeral⟩⟩ | ⟨plus, number⟩
  · exact ⟨_, _, rfl, numeral.not_ident⟩
  · exact ⟨_, _, rfl, punct_not_ident plus⟩
  · exact ⟨_, _, rfl, punct_not_ident minus⟩
  · exact ⟨_, _, rfl, punct_not_ident plus⟩

theorem Listed.begins (numbers : Listed Oversigned ts xs) :
    ∃ first rest, ts = first :: rest ∧ first.isIdent = false := by
  cases numbers with
  | last number => exact number.begins
  | more number comma rest =>
    obtain ⟨first, more, text, other⟩ := number.begins
    exact ⟨first, more ++ _ :: _, by rw [text, List.cons_append], other⟩

def Behind (ts : List Token) (xs : List Single) : Prop :=
  ts = [] ∧ xs = [] ∨ ∃ t us, ts = t :: us ∧ t.isPunct ',' ∧ Listed Oversigned us xs

theorem listed_iff : Listed Oversigned ts xs ↔ ∃ front x rest ys,
    Oversigned front x ∧ Behind rest ys ∧ ts = front ++ rest ∧ xs = x :: ys := by
  constructor
  · intro numbers
    cases numbers with
    | last number => exact ⟨ts, _, [], [], number, .inl ⟨rfl, rfl⟩, by simp, rfl⟩
    | more number comma rest =>
      exact ⟨_, _, _, _, number, .inr ⟨_, _, rfl, comma, rest⟩, rfl, rfl⟩
  · rintro ⟨front, x, rest, ys, number, ⟨rfl, rfl⟩ | ⟨t, us, rfl, comma, more⟩, rfl, rfl⟩
    · rw [List.append_nil]
      exact .last number
    · exact .more number comma more

/-- What is left to be read of a list. -/
def Due : Expecting → List Token → List Single → Prop
  | .number false, ts, xs => Listed Oversigned ts xs
  | .number true, ts, xs =>
    ∃ t us x ys, Numeral t x ∧ Behind us ys ∧ ts = t :: us ∧ xs = -x :: ys
  | .comma, ts, xs => Behind ts xs

theorem listed_cons : Listed Oversigned (t :: ts) xs ↔
    (∃ x ys, Numeral t x ∧ Due .comma ts ys ∧ xs = x :: ys) ∨
      t.isPunct '-' ∧ Due (.number true) ts xs ∨ t.isPunct '+' ∧ Due (.number false) ts xs := by
  rw [listed_iff]
  constructor
  · rintro ⟨front, x, rest, ys, number, behind, text, rfl⟩
    obtain ⟨first, more, parts, _⟩ := number.begins
    rw [parts, List.cons_append, List.cons.injEq] at text
    obtain ⟨rfl, rfl⟩ := text
    rw [parts] at number
    rcases oversigned_cons.mp number with ⟨rfl, numeral⟩ | ⟨minus, s, y, rfl, numeral, rfl⟩ |
      ⟨plus, number⟩
    · exact .inl ⟨x, ys, numeral, behind, rfl⟩
    · exact .inr (.inl ⟨minus, s, rest, y, ys, numeral, behind, rfl, rfl⟩)
    · exact .inr (.inr ⟨plus, listed_iff.mpr ⟨more, x, rest, ys, number, behind, rfl, rfl⟩⟩)
  · rintro (⟨x, ys, numeral, behind, rfl⟩ | ⟨minus, s, us, y, ys, numeral, behind, rfl, rfl⟩ |
      ⟨plus, numbers⟩)
    · exact ⟨[t], x, ts, ys, .signed (.bare numeral), behind, rfl, rfl⟩
    · exact ⟨[t, s], -y, us, ys, .signed (.minus minus numeral), behind, rfl, rfl⟩
    · obtain ⟨front, x, rest, ys, number, behind, rfl, rfl⟩ := listed_iff.mp numbers
      exact ⟨t :: front, x, rest, ys, .plus plus number, behind, rfl, rfl⟩

theorem due_number {negative : Bool} : Due (.number negative) (t :: ts) xs ↔
    (∃ x ys, Numeral t x ∧ Due .comma ts ys ∧ xs = (if negative then -x else x) :: ys) ∨
      negative = false ∧
        (t.isPunct '-' ∧ Due (.number true) ts xs ∨ t.isPunct '+' ∧ Due (.number false) ts xs) := by
  cases negative with
  | false => simp only [Due, listed_cons, Bool.false_eq_true, if_false, true_and]
  | true =>
    simp only [Due, if_true, Bool.true_eq_false, false_and, or_false]
    constructor
    · rintro ⟨s, us, x, ys, numeral, behind, text, made⟩
      cases text
      exact ⟨x, ys, numeral, behind, made⟩
    · rintro ⟨x, ys, numeral, behind, made⟩
      exact ⟨t, ts, x, ys, numeral, behind, rfl, made⟩

theorem due_comma : Due .comma (t :: ts) xs ↔ t.isPunct ',' ∧ Due (.number false) ts xs := by
  simp [Due, Behind]

theorem due_nil {e : Expecting} : Due e [] xs ↔ e = .comma ∧ xs = [] := by
  rcases e with (_ | _) | _
  · have none : ¬ Listed Oversigned [] xs := by
      intro numbers
      obtain ⟨first, rest, text, _⟩ := numbers.begins
      cases text
    simp [Due, none]
  · simp [Due]
  · simp [Due, Behind]

/-- The automaton reads what is due in its state. -/
theorem numbersFrom_iff {e : Expecting} : numbersFrom e ts = some xs ↔ Due e ts xs := by
  induction e, ts using numbersFrom.induct generalizing xs with
  | case1 => simp [numbersFrom, due_nil, eq_comm]
  | case2 negative => simp [numbersFrom, due_nil]
  | case3 negative t ts minus ih =>
    obtain ⟨mark, first⟩ : t.isPunct '-' ∧ negative = false := by simpa using minus
    have plus : t.isPunct '+' = false := isPunct_other mark (by decide)
    rw [numbersFrom, if_pos minus, ih, due_number]
    simp [mark, plus, not_numeral mark, first]
  | case4 negative t ts minus plus ih =>
    obtain ⟨mark, first⟩ : t.isPunct '+' ∧ negative = false := by simpa using plus
    have other : t.isPunct '-' = false := isPunct_other mark (by decide)
    rw [numbersFrom, if_neg minus, if_pos plus, ih, due_number]
    simp [mark, other, not_numeral mark, first]
  | case5 negative t ts minus plus number ih =>
    rw [numbersFrom, if_neg minus, if_neg plus, if_pos number, due_number]
    simp only [number_not_punct number, Bool.false_eq_true, false_and, or_self, and_false, or_false,
      Option.bind_eq_bind, Option.bind_eq_some_iff, ih, numeral_iff, number, true_and]
    constructor
    · rintro ⟨x, read, ys, behind, made⟩
      exact ⟨x, ys, read, behind, (Option.some.inj made).symm⟩
    · rintro ⟨x, ys, read, behind, rfl⟩
      exact ⟨x, read, ys, behind, rfl⟩
  | case6 negative t ts minus plus other =>
    have none (x : Single) : ¬ Numeral t x := fun numeral => other numeral.1
    rw [numbersFrom, if_neg minus, if_neg plus, if_neg other, due_number]
    simp only [none, false_and, exists_false, false_or, reduceCtorEq, false_iff]
    rintro ⟨first, ⟨mark, _⟩ | ⟨mark, _⟩⟩
    · exact minus (by simp [mark, first])
    · exact plus (by simp [mark, first])
  | case7 t ts comma ih => rw [numbersFrom, if_pos comma, ih, due_comma, and_iff_right comma]
  | case8 t ts other => simp [numbersFrom, due_comma, other]

theorem arguments?_iff {inside : List Token} : arguments? ts = some inside ↔
    ∃ opening closing, opening.isPunct '(' ∧ closing.isPunct ')' ∧
      ts = opening :: (inside ++ [closing]) := by
  constructor
  · intro found
    cases ts with
    | nil => cases found
    | cons opening rest =>
      rw [arguments?] at found
      split at found
      · rename_i marks
        obtain ⟨opens, ends⟩ := Bool.and_eq_true_iff.mp marks
        obtain ⟨closing, last, closes⟩ := (Option.any_eq_true _ _).mp ends
        have parts : rest.dropLast ++ [closing] = rest := List.dropLast_append_getLast? closing last
        rw [← Option.some.inj found]
        exact ⟨opening, closing, opens, closes, by rw [parts]⟩
      · cases found
  · rintro ⟨opening, closing, opens, closes, rfl⟩
    simp [arguments?, opens, closes]

theorem constructs_iff {name : String} :
    (∃ type, UniformType.ofName? name = some type ∧ constructs type kind) ↔
      name ∈ constructorNames kind := by
  unfold UniformType.ofName?
  cases kind <;> split
  all_goals simp_all [constructs, constructorNames]

theorem ofNumbers?_iff : kind.ofNumbers? xs = some v ↔ Fills kind xs v := by
  constructor
  · intro made
    unfold Kind.ofNumbers? at made
    split at made
    all_goals cases made
    all_goals simp [Fills, Value.fits, Value.components]
  · rintro ⟨known, fits, same | ⟨x, one, same⟩⟩
    · cases kind <;> cases v <;> cases fits <;> cases same <;> first | rfl | exact absurd rfl known
    · cases kind <;> cases v <;> cases fits <;> simp_all [Value.components, Kind.ofNumbers?]

theorem literal?_iff {text : List Char} :
    literal? kind text = some v ↔ Accepted kind (tokens text) v := by
  unfold literal?
  generalize tokens text = ts
  constructor
  · intro read
    obtain ⟨first, begins, read⟩ := Option.bind_eq_some_iff.mp read
    obtain ⟨more, parts⟩ := List.head?_eq_some_iff.mp begins
    subst parts
    extract_lets finish at read
    split at read
    · rename_i ident
      obtain ⟨type, named, read⟩ := Option.bind_eq_some_iff.mp read
      obtain ⟨inside, found, read⟩ := Option.bind_eq_some_iff.mp read
      obtain ⟨opening, closing, opens, closes, parts⟩ := arguments?_iff.mp found
      rw [List.tail_cons] at parts
      rw [parts]
      split at read
      · rename_i made
        obtain ⟨xs, numbers, filled⟩ := Option.bind_eq_some_iff.mp read
        exact .constructor
          (.call ident (constructs_iff.mp ⟨type, named, made⟩) opens closes
            (numbersFrom_iff.mp numbers))
          (ofNumbers?_iff.mp filled)
      · cases read
    · obtain ⟨xs, numbers, filled⟩ := Option.bind_eq_some_iff.mp read
      exact .numbers (numbersFrom_iff.mp numbers) (ofNumbers?_iff.mp filled)
  · rintro (⟨numbers, fills⟩ | ⟨@⟨name, opening, closing, inside, _, ident, type, opens, closes,
      numbers⟩, fills⟩)
    · obtain ⟨first, rest, parts, other⟩ := numbers.begins
      have read : numbers? ts = some _ := numbersFrom_iff.mpr numbers
      simp [parts ▸ read, parts, other, ofNumbers?_iff.mpr fills]
    · obtain ⟨type, named, made⟩ := constructs_iff.mpr type
      have found : arguments? (opening :: (inside ++ [closing])) = some inside :=
        arguments?_iff.mpr ⟨opening, closing, opens, closes, rfl⟩
      have read : numbers? inside = some _ := numbersFrom_iff.mpr numbers
      simp [ident, named, found, made, read, ofNumbers?_iff.mpr fills]

theorem Accepted.fits (read : Accepted kind ts v) : v.fits kind := by
  rcases read with ⟨_, fills⟩ | ⟨_, fills⟩
  · exact fills.2.1
  · exact fills.2.1

end Grammar

section Strictness
variable {kind : Kind} {ts : List Token} {x : Single} {xs : List Single} {v : Value}

theorem Signed.alone (number : Signed ts x) : ts.IsChain Alone := by
  cases number with
  | bare numeral => exact .singleton _
  | plus sign numeral => exact .cons_cons (by simp [Alone, numeral.not_sign]) (.singleton _)
  | minus sign numeral => exact .cons_cons (by simp [Alone, numeral.not_sign]) (.singleton _)

theorem alone_cons {t : Token} (mark : isSign t = false) :
    (t :: ts).IsChain Alone ↔ ts.IsChain Alone := by
  simp [List.isChain_cons, Alone, mark]

theorem alone_around {t : Token} {us : List Token} (mark : isSign t = false) :
    (ts ++ t :: us).IsChain Alone ↔ ts.IsChain Alone ∧ us.IsChain Alone := by
  simp [List.isChain_append, alone_cons, Alone, mark]

theorem Listed.alone (numbers : Listed Signed ts xs) : ts.IsChain Alone := by
  induction numbers with
  | last number => exact number.alone
  | more number comma rest ih =>
    have mark := isSign_other comma (by decide) (by decide)
    exact (alone_around mark).mpr ⟨number.alone, ih⟩

theorem isSign_plus {sign : Token} (plus : sign.isPunct '+') : isSign sign := by
  simp [isSign, plus]

theorem isSign_minus {sign : Token} (minus : sign.isPunct '-') : isSign sign := by
  simp [isSign, minus]

theorem Oversigned.strict (number : Oversigned ts x) (alone : ts.IsChain Alone) :
    Signed ts x := by
  induction number with
  | signed number => exact number
  | plus sign number ih =>
    -- A sign stands in front, so that the number has none of its own.
    rcases ih alone.tail with ⟨numeral⟩ | ⟨plus, numeral⟩ | ⟨minus, numeral⟩
    · exact .plus sign numeral
    · exact absurd (isSign_plus plus) (alone.rel (isSign_plus sign))
    · exact absurd (isSign_minus minus) (alone.rel (isSign_plus sign))

theorem Listed.strict (numbers : Listed Oversigned ts xs) (alone : ts.IsChain Alone) :
    Listed Signed ts xs := by
  induction numbers with
  | last number => exact .last (number.strict alone)
  | more number comma rest ih =>
    obtain ⟨here, there⟩ := (alone_around (isSign_other comma (by decide) (by decide))).mp alone
    exact .more (number.strict here) comma (ih there)

theorem Listed.loose (numbers : Listed Signed ts xs) : Listed Oversigned ts xs := by
  induction numbers with
  | last number => exact .last (.signed number)
  | more number comma rest ih => exact .more (.signed number) comma ih

theorem Signed.commas (number : Signed ts x) : ∀ t ∈ ts, t.isPunct ',' = false := by
  intro t listed
  rcases number with ⟨numeral⟩ | ⟨plus, numeral⟩ | ⟨minus, numeral⟩
  · rw [List.mem_singleton.mp listed, numeral.not_punct]
  · rcases List.mem_pair.mp listed with rfl | rfl
    · exact isPunct_other plus (by decide)
    · exact numeral.not_punct ','
  · rcases List.mem_pair.mp listed with rfl | rfl
    · exact isPunct_other minus (by decide)
    · exact numeral.not_punct ','

theorem call_alone {name opening closing : Token} (ident : name.isIdent)
    (opens : opening.isPunct '(') (closes : closing.isPunct ')') :
    (name :: opening :: (ts ++ [closing])).IsChain Alone ↔ ts.IsChain Alone := by
  have first : isSign name = false := by
    simp [isSign, eq_false_of_ne_true (ident_not_punct ident _)]
  have second := isSign_other opens (by decide) (by decide)
  have last := isSign_other closes (by decide) (by decide)
  rw [alone_cons first, alone_cons second, alone_around last]
  exact and_iff_left .nil

theorem literal_iff : Literal kind ts v ↔ Accepted kind ts v ∧ Strict ts := by
  constructor
  · rintro (⟨number, fills⟩ | ⟨⟨ident, type, opens, closes, numbers⟩, fills⟩)
    · refine ⟨.numbers (.last (.signed number)) fills, number.alone, fun t listed comma => ?_⟩
      rw [number.commas t listed] at comma
      cases comma
    · refine ⟨.constructor (.call ident type opens closes numbers.loose) fills,
        (call_alone ident opens closes).mpr numbers.alone, fun t listed comma => ⟨_, rfl, ident⟩⟩
  · rintro ⟨⟨numbers, fills⟩ | ⟨⟨ident, type, opens, closes, numbers⟩, fills⟩, alone, commas⟩
    · obtain ⟨first, rest, begins, other⟩ := numbers.begins
      rcases numbers with ⟨number⟩ | ⟨number, comma, later⟩
      · exact .number (number.strict alone) fills
      · obtain ⟨name, here, ident⟩ := commas _ (by simp) comma
        rw [begins] at here
        cases here
        rw [other] at ident
        cases ident
    · have inner := (call_alone ident opens closes).mp alone
      exact .constructor (.call ident type opens closes (numbers.strict inner)) fills

end Strictness

section Seeding
variable {document : List Char} {d : Declaration} {p : Parameter} {name : String} {v : Value}

def declaredKind? (d : Declaration) : Option Kind :=
  (UniformType.ofName? d.typeName).bind fun type => kindOf? type d.name

/-- Whether a form of initializers reads a value for a declaration. -/
def Gives (form : Kind → List Token → Value → Prop) (d : Declaration) (v : Value) : Prop :=
  ∃ kind text, declaredKind? d = some kind ∧ d.initializer = some text ∧ form kind (tokens text) v

def Decides (document : List Char) (name : String) (d : Declaration) : Prop :=
  lastNamed name ((editable document).map fun d => (d.name, d)) = some d

/-- The defaults of a document are what a form of initializers reads, and where it reads nothing they
    are those of the table. -/
def SeedsBy (form : Kind → List Token → Value → Prop) (document : List Char) : Prop :=
  ∀ name d, Decides document name d →
    ∃ p kind, named (extract true document) name = some p ∧ declaredKind? d = some kind ∧
      (∀ v, Gives form d v → p.kind = kind ∧ p.default = v ∧ p.value = v) ∧
      ((∀ v, ¬ Gives form d v) → p = Parameter.ofKind name kind)

/-- Something is read for a declaration that is no literal and not the default of the table. -/
def Lenient (d : Declaration) : Prop :=
  ∃ v, Gives Accepted d v ∧ (∀ text ∈ d.initializer, ¬ Strict (tokens text)) ∧
    (declaredKind? d).map Kind.defaultValue ≠ some v

theorem seed_fitting (name : String) {kind : Kind} (fits : v.fits kind) :
    ((Parameter.ofKind name kind).seed v).kind = kind ∧
      ((Parameter.ofKind name kind).seed v).default = v ∧
      ((Parameter.ofKind name kind).seed v).value = v := by
  have fits' : v.fits (Parameter.ofKind name kind).kind := fits
  unfold Parameter.seed
  rw [if_pos fits']
  exact ⟨rfl, rfl, rfl⟩

theorem seed_table (name : String) (kind : Kind) :
    (Parameter.ofKind name kind).seed kind.defaultValue = Parameter.ofKind name kind := by
  have range : Range.widen ⟨.zero, .ofNat 5⟩ half = ⟨.zero, .ofNat 5⟩ := by decide +kernel
  cases kind with
  | scalar => simp [Parameter.seed, Parameter.ofKind, Kind.defaultValue, Kind.defaultRange,
      Value.fits, range]
  | _ => rfl

theorem gives_iff : Gives Accepted d v ↔
    ∃ kind, declaredKind? d = some kind ∧ d.initializer.bind (literal? kind) = some v := by
  simp only [Gives, Option.bind_eq_some_iff, literal?_iff, exists_and_left]

theorem gives_literal_iff :
    Gives Literal d v ↔ Gives Accepted d v ∧ ∀ text ∈ d.initializer, Strict (tokens text) := by
  constructor
  · rintro ⟨kind, text, known, initial, read⟩
    obtain ⟨accepted, strict⟩ := literal_iff.mp read
    refine ⟨⟨kind, text, known, initial, accepted⟩, fun other same => ?_⟩
    rw [initial] at same
    cases same
    exact strict
  · rintro ⟨⟨kind, text, known, initial, read⟩, strict⟩
    exact ⟨kind, text, known, initial, literal_iff.mpr ⟨read, strict text initial⟩⟩

theorem Gives.unique {v' : Value} (gives : Gives Accepted d v) (gives' : Gives Accepted d v') :
    v = v' := by
  obtain ⟨kind, known, read⟩ := gives_iff.mp gives
  obtain ⟨kind', known', read'⟩ := gives_iff.mp gives'
  rw [known] at known'
  cases known'
  exact Option.some.inj (read.symm.trans read')

theorem ofDeclaration?_seeded (made : ofDeclaration? true d = some p) :
    ∃ kind, declaredKind? d = some kind ∧
      (∀ v, Gives Accepted d v → p = (Parameter.ofKind d.name kind).seed v) ∧
      ((∀ v, ¬ Gives Accepted d v) → p = Parameter.ofKind d.name kind) := by
  unfold ofDeclaration? at made
  simp only [Option.bind_eq_bind] at made
  split at made
  · cases made
  · obtain ⟨type, typed, made⟩ := Option.bind_eq_some_iff.mp made
    obtain ⟨kind, made_by, made⟩ := Option.bind_eq_some_iff.mp made
    have known : declaredKind? d = some kind := by rw [declaredKind?, typed, Option.bind_some, made_by]
    refine ⟨kind, known, ?_⟩
    cases read : d.initializer.bind (literal? kind) with
    | none =>
      rw [read] at made
      cases made
      refine ⟨fun v gives => ?_, fun _ => rfl⟩
      obtain ⟨kind', known', read'⟩ := gives_iff.mp gives
      rw [known] at known'
      cases known'
      rw [read] at read'
      cases read'
    | some v =>
      rw [read] at made
      cases made
      have gives : Gives Accepted d v := gives_iff.mpr ⟨kind, known, read⟩
      exact ⟨fun v' gives' => by rw [gives.unique gives'], fun none => absurd gives (none v)⟩

theorem Decides.extracted (seeding : Bool) (decides : Decides document name d) :
    d.name = name ∧ ∃ p, ofDeclaration? seeding d = some p ∧
      named (extract seeding document) name = some p := by
  obtain ⟨e, listed, same⟩ := List.mem_map.mp (lastNamed_listed decides)
  cases same
  have control := ofDeclaration?_isSome seeding d
  rw [(List.mem_filter.mp listed).2] at control
  obtain ⟨p, made⟩ := Option.isSome_iff_exists.mp control
  refine ⟨rfl, p, made, ?_⟩
  have member : p ∈ extract seeding document := by
    rw [mem_extract, lastNamed_editable, ofDeclaration?_name made]
    exact Option.bind_eq_some_iff.mpr ⟨d, decides, made⟩
  rw [← ofDeclaration?_name made]
  exact (distinct_extract seeding document).named member

theorem seedsBy_accepted (document : List Char) : SeedsBy Accepted document := by
  intro name d decides
  obtain ⟨rfl, p, made, found⟩ := decides.extracted true
  obtain ⟨kind, known, seeded, plain⟩ := ofDeclaration?_seeded made
  refine ⟨p, kind, found, known, fun v gives => ?_, plain⟩
  have same := seeded v gives
  obtain ⟨kind', text, known', _, read⟩ := gives
  rw [known] at known'
  cases known'
  rw [same]
  exact seed_fitting d.name read.fits

theorem seedsBy_literal_iff (document : List Char) :
    SeedsBy Literal document ↔ ∀ name d, Decides document name d → ¬ Lenient d := by
  constructor
  · rintro seeds name d decides ⟨v, gives, loose, other⟩
    obtain ⟨p, kind, found, known, _, plain⟩ := seeds name d decides
    obtain ⟨p', kind', found', known', seeded, _⟩ := seedsBy_accepted document name d decides
    rw [found] at found'
    rw [known] at known'
    cases found'
    cases known'
    have table : p = Parameter.ofKind name kind := by
      refine plain fun v literal => ?_
      obtain ⟨kind, text, _, initial, _⟩ := gives
      exact loose text initial ((gives_literal_iff.mp literal).2 text initial)
    obtain ⟨_, default, _⟩ := seeded v gives
    rw [known, Option.map_some, ne_eq, Option.some.injEq, ← default, table] at other
    exact other rfl
  · intro strict name d decides
    obtain ⟨p, kind, found, known, seeded, plain⟩ := seedsBy_accepted document name d decides
    refine ⟨p, kind, found, known, fun v literal => seeded v (gives_literal_iff.mp literal).1, ?_⟩
    intro none
    by_cases any : ∃ v, Gives Accepted d v
    · -- It is read without being a literal, so that it is what the table says.
      obtain ⟨v, gives⟩ := any
      have loose : ∀ text ∈ d.initializer, ¬ Strict (tokens text) := by
        intro text initial alone
        refine none v (gives_literal_iff.mpr ⟨gives, fun other same => ?_⟩)
        rw [Option.mem_unique same initial]
        exact alone
      have table : (declaredKind? d).map Kind.defaultValue = some v :=
        not_not.mp fun other => strict name d decides ⟨v, gives, loose, other⟩
      obtain ⟨rfl, p', made, found'⟩ := decides.extracted true
      obtain ⟨kind', known', seeded', _⟩ := ofDeclaration?_seeded made
      rw [found] at found'
      rw [known] at known' table
      cases found'
      cases known'
      cases table
      rw [seeded' _ gives, seed_table]
    · exact plain fun v gives => any ⟨v, gives⟩

/-- What seeding takes for a default: numbers between commas, by themselves or in a constructor of the
    declared type, one for all components or one for each, and before a number any plus signs and then
    at most one sign. The literals are those of them in which no sign follows a sign and commas stand
    in a constructor. So the literals decide about the defaults just if no last declaration of a name
    has something else that is taken, and is not the default of the table anyway. -/
theorem seeding_reads (document : List Char) :
    SeedsBy Accepted document ∧
      (SeedsBy Literal document ↔ ∀ name d, Decides document name d → ¬ Lenient d) ∧
      ∀ kind ts v, Literal kind ts v ↔ Accepted kind ts v ∧ Strict ts :=
  ⟨seedsBy_accepted document, seedsBy_literal_iff document, fun _ _ _ => literal_iff⟩

def barePair : Declaration := ⟨0, 28, "float2", "p", some "0.1, 0.2".toList⟩

def manySigns : Declaration := ⟨0, 24, "float", "a", some "+-1.0".toList⟩

theorem barePair_lenient : Lenient barePair := by
  refine ⟨.vector2 (.ofDecimal 1 (-1)) (.ofDecimal 2 (-1)),
    gives_iff.mpr ⟨.vector2, rfl, by decide +kernel⟩, ?_, by decide +kernel⟩
  intro text initial strict
  cases initial
  obtain ⟨name, first, ident⟩ := strict.commas ⟨.punct, 3, [',']⟩ (by decide) (by decide)
  cases first
  cases ident

theorem manySigns_lenient : Lenient manySigns := by
  refine ⟨.scalar (-.ofNat 1), gives_iff.mpr ⟨.scalar, rfl, by decide +kernel⟩, ?_,
    by decide +kernel⟩
  intro text initial strict
  cases initial
  exact absurd (by decide) (strict.signs.rel (by decide))

theorem defaults_not_literal :
    ¬ SeedsBy Literal "uniform float2 p = 0.1, 0.2;".toList ∧
      ¬ SeedsBy Literal "uniform float a = +-1.0;".toList := by
  constructor
  · intro seeds
    have decides : Decides "uniform float2 p = 0.1, 0.2;".toList "p" barePair := by
      unfold Decides
      decide +kernel
    exact (seedsBy_literal_iff _).mp seeds "p" barePair decides barePair_lenient
  · intro seeds
    have decides : Decides "uniform float a = +-1.0;".toList "a" manySigns := by
      unfold Decides
      decide +kernel
    exact (seedsBy_literal_iff _).mp seeds "a" manySigns decides manySigns_lenient

end Seeding
end ShaderBench.Param
