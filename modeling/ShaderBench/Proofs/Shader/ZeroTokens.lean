import ShaderBench.Proofs.Shader.Parts
import ShaderBench.Proofs.Shader.ZeroPieces
import ShaderBench.Proofs.Text.Encoding
/-
The tokens of a document before and after its zero initializers get their new forms. They are the
same but for the zeros, as long as each initializer stands where its new form reads like it.
-/
namespace ShaderBench.Shader
open Text

def floatTypes : List (List Char) :=
  ["float".toList, "float2".toList, "float3".toList, "float4".toList]

def declared (type name : List Char) (value : List (TokenKind × List Char)) :
    List (TokenKind × List Char) :=
  (.ident, type) :: (.ident, name) :: (.punct, ['=']) :: (value ++ [(.punct, [';'])])

def plainZero : List (TokenKind × List Char) := [(.number, ['0'])]

@[grind =] def typedZero (type : List Char) : List (TokenKind × List Char) :=
  if type = "float".toList then [(.number, "0.0".toList)]
  else [(.ident, type), (.punct, ['(']), (.number, "0.0".toList), (.punct, [')'])]

/-- The tokens of a document, with some of the zeros that initialize a float or a vector of floats
    replaced by the zero of its type. -/
inductive Coerced : List (TokenKind × List Char) → List (TokenKind × List Char) → Prop
  | done : Coerced [] []
  | same (t : TokenKind × List Char) {ts us : List (TokenKind × List Char)} :
      Coerced ts us → Coerced (t :: ts) (t :: us)
  | zero {type name : List Char} {ts us : List (TokenKind × List Char)} :
      type ∈ floatTypes → Coerced ts us →
        Coerced (declared type name plainZero ++ ts) (declared type name (typedZero type) ++ us)

/-- What may become of the tokens in one place: there are none, or those of a declaration. -/
inductive Replaced : List (TokenKind × List Char) → List (TokenKind × List Char) → Prop
  | none : Replaced [] []
  | zero {type name : List Char} : type ∈ floatTypes →
      Replaced (declared type name plainZero) (declared type name (typedZero type))

def Holds (rs : List (Char × Role)) (cs : List (TokenKind × List Char)) : Prop :=
  (∀ p ∈ rs.head?, p.2 ≠ .continues) ∧ contents rs = cs

/-- Place by place a rewriting keeps the tokens: a character that stays is to them what it was, and
    a declaration that is replaced gives those of its new form. -/
@[grind =] def KeepsTokens : ReadState → ReadState → List Piece → Prop
  | _, _, [] => True
  | s, s', p :: ps =>
    let following := (original ps).head?
    let following' := (rewritten ps).head?
    (match p with
      | .kept c => (s.read c following).2 = (s'.read c following').2
      | .swapped old new => ∃ cs cs', Holds (rolesBefore following s old) cs ∧
          Holds (rolesBefore following' s' new) cs' ∧ Replaced cs cs') ∧
    KeepsTokens (s.after p.old following) (s'.after p.new following') ps

/-- Whether a declaration has spaces that the reader passes over and a name that is one token. -/
structure ZeroForm.Plain {shape : FloatShape} (z : ZeroForm shape) : Prop where
  gap_space : ∀ c ∈ z.gap, isSpace c
  mark_space : ∀ c ∈ z.beforeMark, isSpace c
  zero_space : ∀ c ∈ z.beforeZero, isSpace c
  end_space : ∀ c ∈ z.beforeEnd, isSpace c
  name_ident : ∃ c w, z.name = c :: w ∧ startsName c ∧ ∀ d ∈ w, continuesName d

/-- Where a declaration can get its new form: among tokens if it is plain, in a block comment always,
    and in a stretch that ends with its line if it is on one line. -/
@[grind =] def HarmlessIn (r : Region) (old : List Char) : Prop :=
  match r with
  | .between _ => ∃ shape, ∃ z : ZeroForm shape, old = z.old ∧ z.Plain
  | .word | .number _ => False
  | .lineComment | .quoted _ | .directive _ => '\n' ∉ old
  | .blockOpening | .block _ => True

/-- Every declaration that is replaced stands where it can be. -/
@[grind =] def Harmless : ReadState → List Piece → Prop
  | _, [] => True
  | s, p :: ps =>
    (match p with
      | .kept _ => True
      | .swapped old _ => HarmlessIn s.region old) ∧
    Harmless (s.after p.old (original ps).head?) ps

theorem calm_of_blank {c : Char} (blank : isBlank c) : calm c := by
  simp only [calm, Bool.and_eq_true, decide_eq_true_eq]
  refine ⟨⟨⟨?_, ?_⟩, ?_⟩, ?_⟩
  all_goals
    rintro rfl
    exact absurd blank (by decide)

theorem calm_of_word {c : Char} (word : isWord c) : calm c := by
  simp only [calm, Bool.and_eq_true, decide_eq_true_eq]
  refine ⟨⟨⟨?_, ?_⟩, ?_⟩, ?_⟩
  all_goals
    rintro rfl
    exact absurd word (by decide)

theorem isWord_of_continuesName {c : Char} (continues : continuesName c) : isWord c := by
  have ascii : c.toNat < 128 := by
    simp only [continuesName, Bool.or_eq_true, decide_eq_true_eq] at continues
    rcases continues with alphanumeric | under
    · exact ascii_of_isAlphanum alphanumeric
    · rw [under]
      decide
  rw [isWord, if_pos ascii]
  exact continues

theorem mark_of_blank {c : Char} (blank : isBlank c) (solid : isSpace c = false) : isMark c := by
  have quiet := calm_of_blank blank
  simp only [calm, Bool.and_eq_true, decide_eq_true_eq] at quiet
  have name : continuesName c = false := by
    by_contra continues
    have word := isWord_of_continuesName (by simpa using continues)
    rw [isWord_of_blank blank] at word
    cases word
  have signs : c ≠ '.' ∧ c ≠ '+' ∧ c ≠ '-' := by
    refine ⟨?_, ?_, ?_⟩
    all_goals
      rintro rfl
      exact absurd blank (by decide)
  simp [isMark, solid, name, signs, quiet]

theorem mark_of_word {c : Char} (word : isWord c) (other : continuesName c = false) : isMark c := by
  have quiet := calm_of_word word
  simp only [calm, Bool.and_eq_true, decide_eq_true_eq] at quiet
  have signs : c ≠ '.' ∧ c ≠ '+' ∧ c ≠ '-' := by
    refine ⟨?_, ?_, ?_⟩
    all_goals
      rintro rfl
      exact absurd word (by decide)
  have solid : isSpace c = false := by
    by_contra space
    simp only [isSpace, isSpacing, Bool.not_eq_false, Bool.or_eq_true, decide_eq_true_eq] at space
    rcases space with (((blank | tab) | feed) | ret) | newline
    all_goals
      subst c
      exact absurd word (by decide)
  simp [isMark, solid, other, signs, quiet]

namespace ZeroForm
variable {shape : FloatShape} (z : ZeroForm shape)

theorem type_listed : z.type ∈ floatTypes := by
  have listed : ∀ size ∈ shape.sizes, "float".toList ++ size ∈ floatTypes := by
    cases shape <;> decide
  exact listed z.size z.sized

theorem reads_type : Reads Between z.type [(.ident, z.type)] (· = .word) := by
  have digits : ∀ size ∈ shape.sizes, ("loat".toList ++ size).all continuesName := by
    cases shape <;> decide
  have text : z.type = 'f' :: ("loat".toList ++ z.size) := rfl
  rw [text]
  exact reads_word (by decide) (List.all_eq_true.mp (digits z.size z.sized))

theorem reads_typedZero :
    Reads Between (shape.zero z.type) (typedZero z.type) Active := by
  have number : Reads Between "0.0".toList [(.number, "0.0".toList)] Active :=
    reads_zero (w := ".0".toList) (List.all_eq_true.mp (by decide))
  cases shape with
  | scalar =>
    have plain : z.type = "float".toList := by
      have none : z.size = [] := by simpa [FloatShape.sizes] using z.sized
      rw [type, none, List.append_nil]
    rw [typedZero, if_pos plain]
    exact number
  | vector =>
    have sized : z.type ≠ "float".toList := by
      have sizes : ∀ size ∈ FloatShape.vector.sizes, "float".toList ++ size ≠ "float".toList := by
        decide
      exact sizes z.size z.sized
    have opening : Reads (· = .word) ['('] [(.punct, ['('])] Between :=
      (reads_mark (by decide)).mono (fun _ => word_active) fun _ between => between
    have closing : Reads Active [')'] [(.punct, [')'])] Active :=
      (reads_mark (by decide)).mono (fun _ active => active) fun _ => Between.active
    have whole := z.reads_type.append (opening.append (number.append closing))
    rw [typedZero, if_neg sized]
    simpa [FloatShape.zero] using whole

variable {z}

theorem reads_start (space : ∀ c ∈ z.gap, isSpace c) :
    Reads Between (z.type ++ z.gap) [(.ident, z.type)] Between :=
  z.reads_type.append ((reads_gap z.apart space).mono (fun _ => word_active) fun _ between => between)

theorem Plain.reads_name (plain : z.Plain) : Reads Between z.name [(.ident, z.name)] (· = .word) := by
  obtain ⟨c, w, text, starts, goes⟩ := plain.name_ident
  rw [text]
  exact reads_word starts goes

theorem Plain.reads_tail (plain : z.Plain) :
    Reads (· = .word) z.tail [(.punct, ['=']), (.number, ['0']), (.punct, [';'])] Between := by
  have mark : Reads (· = .word) (z.beforeMark ++ ['=']) [(.punct, ['='])] Between :=
    ((reads_spaces plain.mark_space).mono (fun _ => word_active) fun _ active => active).append
      (reads_mark (by decide))
  have zero : Reads Between (z.beforeZero ++ ['0']) [(.number, ['0'])] Active :=
    (reads_spaces_between plain.zero_space).append (reads_zero (by simp))
  have ending : Reads Active (z.beforeEnd ++ [';']) [(.punct, [';'])] Between :=
    (reads_spaces plain.end_space).append (reads_mark (by decide))
  have whole := mark.append (zero.append ending)
  simpa [tail] using whole

theorem Plain.reads_old (plain : z.Plain) :
    Reads Between z.old (declared z.type z.name plainZero) Between := by
  have whole := (reads_start plain.gap_space).append (plain.reads_name.append plain.reads_tail)
  simpa [old, declared, plainZero] using whole

theorem Plain.reads_new (plain : z.Plain) :
    Reads Between z.new (declared z.type z.name (typedZero z.type)) Between := by
  have space : ∀ c ∈ [' '], isSpace c := List.all_eq_true.mp (by decide)
  have gap : Reads (· = .word) [' '] [] Between :=
    (reads_gap (by simp) space).mono (fun _ => word_active) fun _ between => between
  have mark : Reads (· = .word) " = ".toList [(.punct, ['='])] Between :=
    ((reads_spaces space).mono (fun _ => word_active) fun _ active => active).append
      ((reads_mark (by decide)).append (reads_spaces_between space))
  have ending : Reads Active [';'] [(.punct, [';'])] Between := reads_mark (by decide)
  have whole := z.reads_type.append (gap.append (plain.reads_name.append (mark.append
    (z.reads_typedZero.append ending))))
  simpa [new, declared] using whole

end ZeroForm

theorem mark_declared {type name text : List Char} {c : Char}
    (listed : (.punct, c :: text) ∈ declared type name plainZero) : c = '=' ∨ c = ';' := by
  simp only [declared, plainZero, List.cons_append, List.nil_append, List.mem_cons, Prod.mk.injEq,
    reduceCtorEq, false_and, false_or, true_and, List.cons.injEq, List.not_mem_nil, or_false] at listed
  rcases listed with ⟨equals, _⟩ | ⟨ending, _⟩
  · exact Or.inl equals
  · exact Or.inr ending

namespace ZeroForm
variable {shape : FloatShape} (z : ZeroForm shape)

theorem old_calm : ∀ c ∈ z.old, calm c := by
  have blank : ∀ {x : List Char}, (∀ c ∈ x, isBlank c) → ∀ c ∈ x, calm c :=
    fun all c member => calm_of_blank (all c member)
  intro c member
  simp only [old, tail, List.mem_append, List.mem_cons, List.not_mem_nil, or_false] at member
  rcases member with ((type | gap) | name) | mark | equals | zero | digit | ending | semicolon
  · exact calm_of_word (z.type_word c type)
  · exact blank z.gap_blank c gap
  · exact calm_of_word (z.name_word c name)
  · exact blank z.mark_blank c mark
  · rw [equals]
    decide
  · exact blank z.zero_blank c zero
  · rw [digit]
    decide
  · exact blank z.end_blank c ending
  · rw [semicolon]
    decide

theorem new_calm : ∀ c ∈ z.new, calm c := by
  have zero : ∀ c ∈ shape.zero z.type, calm c := by
    cases shape with
    | scalar =>
      have number : ∀ c ∈ "0.0".toList, calm c := List.all_eq_true.mp (by decide)
      exact number
    | vector =>
      have number : ∀ c ∈ "(0.0)".toList, calm c := List.all_eq_true.mp (by decide)
      intro c member
      rcases List.mem_append.mp member with type | inside
      · exact calm_of_word (z.type_word c type)
      · exact number c inside
  have equals : ∀ c ∈ " = ".toList, calm c := List.all_eq_true.mp (by decide)
  intro c member
  simp only [new, List.mem_append, List.mem_cons, List.not_mem_nil, or_false] at member
  rcases member with type | space | ((name | mark) | value) | semicolon
  · exact calm_of_word (z.type_word c type)
  · rw [space]
    decide
  · exact calm_of_word (z.name_word c name)
  · exact equals c mark
  · exact zero c value
  · rw [semicolon]
    decide

theorem new_unbroken : '\n' ∉ z.new := List.count_eq_zero.mp z.newlines_new

theorem old_last : ∃ x, z.old = x ++ [';'] :=
  ⟨z.type ++ z.gap ++ z.name ++ (z.beforeMark ++ '=' :: (z.beforeZero ++ '0' :: z.beforeEnd)),
    by simp [old, tail]⟩

theorem new_last : ∃ x, z.new = x ++ [';'] :=
  ⟨z.type ++ ' ' :: (z.name ++ " = ".toList ++ shape.zero z.type), by simp [new]⟩

theorem old_first : ∃ x, z.old = 'f' :: x := ⟨_, rfl⟩

theorem new_first : ∃ x, z.new = 'f' :: x := ⟨_, rfl⟩

theorem new_unique {z : ZeroForm shape} {shape' : FloatShape} {z' : ZeroForm shape'}
    (same : z.old = z'.old) : z.new = z'.new := by
  have types : z.type = z'.type := by
    have texts : z.type ++ (z.gap ++ (z.name ++ z.tail)) =
        z'.type ++ (z'.gap ++ (z'.name ++ z'.tail)) := by
      simpa [old] using same
    exact (cut_unique z.type_word z'.type_word (z.gap_stops _) (z'.gap_stops _) texts).1
  have sizes : z.size = z'.size := List.append_cancel_left types
  have shapes : shape = shape' := by
    have apart : ∀ size ∈ FloatShape.scalar.sizes, size ∉ FloatShape.vector.sizes := by decide
    cases shape with
    | scalar =>
      cases shape' with
      | scalar => rfl
      | vector => exact absurd z'.sized (sizes ▸ apart z.size z.sized)
    | vector =>
      cases shape' with
      | scalar => exact absurd (sizes ▸ z.sized) (apart z'.size z'.sized)
      | vector => rfl
  subst shapes
  have found : zeroDeclaration? shape z.old = some (z.new, []) :=
    zeroDeclaration?_some.mpr ⟨z, (List.append_nil _).symm, rfl⟩
  have found' : zeroDeclaration? shape z.old = some (z'.new, []) :=
    zeroDeclaration?_some.mpr ⟨z', by rw [same, List.append_nil], rfl⟩
  rw [found] at found'
  exact (Prod.mk.inj (Option.some.inj found')).1

theorem plain_of_declared {s : ReadState} {following : Option Char} {type name : List Char}
    (between : Between s.region)
    (tokens : contents (rolesBefore following s z.old) = declared type name plainZero) : z.Plain := by
  have unmarked : ∀ c ∈ z.old, isMark c → c = '=' ∨ c = ';' := by
    intro c member mark
    obtain ⟨text, listed⟩ := opens_contents (mark_opens z.old_calm between.active member mark following)
    rw [tokens] at listed
    exact mark_declared listed
  have space : ∀ {x : List Char}, (∀ c ∈ x, isBlank c) → (∀ c ∈ x, c ∈ z.old) → ∀ c ∈ x, isSpace c := by
    intro x blank inside c member
    by_contra solid
    rcases unmarked c (inside c member) (mark_of_blank (blank c member) (by simpa using solid)) with
      equals | ending
    · have holds := blank c member
      rw [equals] at holds
      exact absurd holds (by decide)
    · have holds := blank c member
      rw [ending] at holds
      exact absurd holds (by decide)
  have gap := space z.gap_blank fun c member => by simp [old, member]
  have goes : ∀ c ∈ z.name, continuesName c := by
    intro c member
    by_contra other
    have word := z.name_word c member
    rcases unmarked c (by simp [old, member]) (mark_of_word word (by simpa using other)) with
      equals | ending
    · rw [equals] at word
      exact absurd word (by decide)
    · rw [ending] at word
      exact absurd word (by decide)
  refine ⟨gap, space z.mark_blank fun c member => by simp [old, tail, member],
    space z.zero_blank fun c member => by simp [old, tail, member],
    space z.end_blank fun c member => by simp [old, tail, member], ?_⟩
  cases text : z.name with
  | nil => exact absurd text z.named
  | cons c w =>
    rw [text] at goes
    refine ⟨c, w, rfl, ?_, fun d member => goes d (List.mem_cons_of_mem c member)⟩
    by_contra other
    -- A name that begins with a digit is a number to the reader.
    have parts : z.old = z.type ++ z.gap ++ (c :: (w ++ z.tail)) := by
      rw [old, text]
      simp
    obtain ⟨_, front, region⟩ := z.reads_start gap s ((c :: (w ++ z.tail)).head?.or following) between
    obtain ⟨lineStart, start⟩ := region
    have role : (ReadState.read (s.after (z.type ++ z.gap) ((c :: (w ++ z.tail)).head?.or following)) c
        ((w ++ z.tail).head?.or following)).2 = .opens .number := by
      simp only [ReadState.read, start]
      rw [readBetween_digit (goes c List.mem_cons_self) (by simpa using other)]
    rw [parts, rolesBefore_append, contents_append, front, rolesBefore, role, contents_opens] at tokens
    · simp [declared] at tokens
    · intro p first
      rw [rolesBefore, role] at first
      cases first
      simp

theorem semicolon_listed : ';' ∈ z.old := by
  obtain ⟨x, text⟩ := z.old_last
  simp [text]

theorem contents_broken {s : ReadState} (ends : s.region.crossesLines = false)
    (broken : '\n' ∈ z.old) (following : Option Char) :
    contents (rolesBefore following s z.old) ≠ [] := by
  obtain ⟨w, text⟩ := z.old_first
  have rest : '\n' ∈ w := by
    rw [text] at broken
    exact (List.mem_cons.mp broken).resolve_left (by decide)
  obtain ⟨x, y, parts, unbroken⟩ := List.eq_append_cons_of_mem rest
  have quiet := z.old_calm
  rw [text, parts] at quiet
  have last : ';' ∈ y := by
    obtain ⟨front, text'⟩ := z.old_last
    have tail : ('f' :: x ++ '\n' :: y).getLast? = some ';' := by
      rw [List.cons_append, ← parts, ← text, text', List.getLast?_concat]
    rw [List.getLast?_append_cons] at tail
    cases y with
    | nil => exact absurd tail (by decide)
    | cons d y =>
      rw [List.getLast?_cons_cons] at tail
      exact List.mem_of_getLast? tail
  have first : (s.next 'f' ((x ++ '\n' :: y).head?.or following)).region = s.region.settled :=
    read_steady (by decide) (by decide) ends (Or.inr (by decide)) _
  have inner : ∀ s' : ReadState, s'.region = s.region.settled →
      (s'.after x (('\n' :: y).head?.or following)).region = s.region.settled := by
    intro s' same
    rw [after_steady (fun c member => quiet c (by simp [member])) unbroken, same]
    · rw [same, Region.crossesLines_settled, ends]
    · rw [same, Region.settled_settled]
  have fresh : ∀ s' : ReadState, s'.region = s.region.settled → ∀ next,
      (s'.next '\n' next).region = .between true := by
    intro s' same next
    apply read_newline_steady
    · rw [same, Region.crossesLines_settled, ends]
    · rw [same, Region.settled_settled]
  have opens : (';', .opens .punct) ∈ rolesBefore following s z.old := by
    rw [text, parts, rolesBefore, rolesBefore_append, rolesBefore]
    apply List.mem_cons_of_mem
    apply List.mem_append_right
    apply List.mem_cons_of_mem
    apply mark_opens (fun c member => quiet c (by simp [member])) _ last (by decide)
    rw [fresh _ (inner _ first)]
    rfl
  obtain ⟨text, listed⟩ := opens_contents opens
  intro none
  rw [none] at listed
  cases listed

theorem after_harmless {s : ReadState} (harmless : HarmlessIn s.region z.old)
    (following following' : Option Char) : s.after z.old following = s.after z.new following' := by
  have ends : ∀ {x : List Char} next, (∀ c ∈ x, calm c) → ('\n' ∉ x ∨ s.region.crossesLines) →
      s.after (x ++ [';']) next = ⟨s.region.settled, .empty⟩ := by
    intro x next quiet whole
    rw [ReadState.after_append]
    simp only [ReadState.after]
    rw [next_semicolon, settled_after quiet whole]
  obtain ⟨x, text⟩ := z.old_last
  obtain ⟨y, text'⟩ := z.new_last
  have quiet := z.old_calm
  have quiet' := z.new_calm
  have unbroken := z.new_unbroken
  have whole : '\n' ∉ z.old ∨ s.region.crossesLines := by
    cases region : s.region with
    | between lineStart => exact Or.inr rfl
    | word => exact Or.inr rfl
    | number afterExponent => exact Or.inr rfl
    | blockOpening => exact Or.inr rfl
    | block afterStar => exact Or.inr rfl
    | lineComment =>
      rw [region] at harmless
      exact Or.inl harmless
    | quoted escaped =>
      rw [region] at harmless
      exact Or.inl harmless
    | directive continuation =>
      rw [region] at harmless
      exact Or.inl harmless
  rw [text] at quiet whole ⊢
  rw [text'] at quiet' unbroken ⊢
  rw [ends following (fun c member => quiet c (by simp [member]))
      (whole.imp_left fun none inside => none (by simp [inside])),
    ends following' (fun c member => quiet' c (by simp [member]))
      (Or.inl fun inside => unbroken (by simp [inside]))]

theorem holds_nil {s : ReadState} {x : List Char} (quiet : ∀ c ∈ x, calm c)
    (whole : '\n' ∉ x ∨ s.region.crossesLines) (inactive : s.region.active = false)
    (following : Option Char) : Holds (rolesBefore following s x) [] := by
  have skipped := rolesBefore_inactive quiet whole inactive following
  refine ⟨?_, contents_of_skipped skipped⟩
  intro p first
  rw [skipped p (List.mem_of_mem_head? first)]
  simp

theorem replaced_of_harmless {s : ReadState} (harmless : HarmlessIn s.region z.old)
    (following following' : Option Char) :
    ∃ cs cs', Holds (rolesBefore following s z.old) cs ∧
      Holds (rolesBefore following' s z.new) cs' ∧ Replaced cs cs' := by
  have outside : s.region.active = false → ('\n' ∉ z.old ∨ s.region.crossesLines) →
      ∃ cs cs', Holds (rolesBefore following s z.old) cs ∧
        Holds (rolesBefore following' s z.new) cs' ∧ Replaced cs cs' :=
    fun inactive whole => ⟨[], [], holds_nil z.old_calm whole inactive following,
      holds_nil z.new_calm (Or.inl z.new_unbroken) inactive following', .none⟩
  cases region : s.region with
  | between lineStart =>
    rw [region] at harmless
    obtain ⟨shape', z', same, plain⟩ := harmless
    have between : Between s.region := ⟨lineStart, region⟩
    obtain ⟨fresh, tokens, _⟩ := plain.reads_old s following between
    obtain ⟨fresh', tokens', _⟩ := plain.reads_new s following' between
    rw [same, new_unique same]
    exact ⟨_, _, ⟨fresh, tokens⟩, ⟨fresh', tokens'⟩, .zero z'.type_listed⟩
  | word =>
    rw [region] at harmless
    cases harmless
  | number afterExponent =>
    rw [region] at harmless
    cases harmless
  | blockOpening => exact outside (by rw [region]; rfl) (Or.inr (by rw [region]; rfl))
  | block afterStar => exact outside (by rw [region]; rfl) (Or.inr (by rw [region]; rfl))
  | lineComment =>
    rw [region] at harmless
    exact outside (by rw [region]; rfl) (Or.inl harmless)
  | quoted escaped =>
    rw [region] at harmless
    exact outside (by rw [region]; rfl) (Or.inl harmless)
  | directive continuation =>
    rw [region] at harmless
    exact outside (by rw [region]; rfl) (Or.inl harmless)

theorem harmless_of_replaced {s : ReadState} {following following' : Option Char}
    {cs cs' : List (TokenKind × List Char)} (old : Holds (rolesBefore following s z.old) cs)
    (new : Holds (rolesBefore following' s z.new) cs') (replaced : Replaced cs cs') :
    HarmlessIn s.region z.old := by
  have line : s.region.crossesLines = false → s.region.active = false → '\n' ∉ z.old := by
    intro ends inactive broken
    have some := z.contents_broken ends broken following
    have none := (holds_nil z.new_calm (Or.inl z.new_unbroken) inactive following').2
    rw [old.2] at some
    rw [new.2] at none
    subst none
    cases replaced
    exact some rfl
  obtain ⟨w, text⟩ := z.old_first
  have first : (s.read 'f' (w.head?.or following)).2 ≠ .continues :=
    old.1 ('f', (s.read 'f' (w.head?.or following)).2) (by rw [text]; rfl)
  cases region : s.region with
  | between lineStart =>
    have between : Between s.region := ⟨lineStart, region⟩
    obtain ⟨text, listed⟩ := opens_contents
      (mark_opens z.old_calm between.active z.semicolon_listed (by decide) following)
    rw [old.2] at listed
    cases replaced with
    | none => cases listed
    | zero type => exact ⟨shape, z, rfl, z.plain_of_declared between old.2⟩
  | word =>
    refine absurd ?_ first
    simp [ReadState.read, region, show continuesName 'f' = true by decide]
  | number afterExponent =>
    refine absurd ?_ first
    simp [ReadState.read, region, continuesNumber, show Char.isAlphanum 'f' = true by decide]
  | blockOpening => trivial
  | block afterStar => trivial
  | lineComment => exact line (by rw [region]; rfl) (by rw [region]; rfl)
  | quoted escaped => exact line (by rw [region]; rfl) (by rw [region]; rfl)
  | directive continuation => exact line (by rw [region]; rfl) (by rw [region]; rfl)

end ZeroForm

def Forms (ps : List Piece) : Prop :=
  ∀ old new, .swapped old new ∈ ps → ∃ shape, ∃ z : ZeroForm shape, old = z.old ∧ new = z.new

theorem Forms.tail {p : Piece} {ps : List Piece} (forms : Forms (p :: ps)) : Forms ps :=
  fun old new listed => forms old new (List.mem_cons_of_mem p listed)

theorem Forms.head? {ps : List Piece} (forms : Forms ps) :
    (original ps).head? = (rewritten ps).head? := by
  cases ps with
  | nil => rfl
  | cons p ps =>
    cases p with
    | kept c => rfl
    | swapped old new =>
      obtain ⟨shape, z, same, same'⟩ := forms old new List.mem_cons_self
      obtain ⟨x, text⟩ := z.old_first
      obtain ⟨y, text'⟩ := z.new_first
      simp [Piece.old, Piece.new, same, same', text, text']

/-- Read from one state a rewriting keeps the tokens exactly if all its declarations are harmless. -/
theorem keepsTokens_iff_harmless {ps : List Piece} (forms : Forms ps) (s : ReadState) :
    KeepsTokens s s ps ↔ Harmless s ps := by
  induction ps generalizing s with
  | nil => exact Iff.rfl
  | cons p ps ih =>
    have heads := forms.tail.head?
    cases p with
    | kept c =>
      simp only [KeepsTokens, Harmless, ← heads, true_and]
      exact ih forms.tail _
    | swapped old new =>
      obtain ⟨shape, z, same, same'⟩ := forms old new List.mem_cons_self
      subst same same'
      constructor
      · rintro ⟨⟨cs, cs', holds, holds', replaced⟩, later⟩
        have harmless := z.harmless_of_replaced holds holds' replaced
        have state := z.after_harmless harmless (original ps).head? (rewritten ps).head?
        refine ⟨harmless, (ih forms.tail _).mp ?_⟩
        simp only [Piece.old, Piece.new, ← state] at later
        exact later
      · rintro ⟨harmless, later⟩
        have state := z.after_harmless harmless (original ps).head? (rewritten ps).head?
        refine ⟨z.replaced_of_harmless harmless _ _, ?_⟩
        have rest := (ih forms.tail _).mpr later
        simp only [Piece.old, Piece.new, ← state]
        exact rest

theorem Coerced.append {ts us ts' us' : List (TokenKind × List Char)} (replaced : Replaced ts us)
    (rest : Coerced ts' us') : Coerced (ts ++ ts') (us ++ us') := by
  cases replaced with
  | none => exact rest
  | zero type => exact .zero type rest

theorem Holds.append {xs ys : List (Char × Role)} {cs ds : List (TokenKind × List Char)}
    (front : Holds xs cs) (fresh : ∀ p ∈ ys.head?, p.2 ≠ .continues) (back : contents ys = ds)
    (some : xs ≠ []) : contents (xs ++ ys) = cs ++ ds ∧ (xs ++ ys).takeWhile (·.2 = .continues) = [] := by
  constructor
  · rw [contents_append _ _ fresh, front.2, back]
  · cases xs with
    | nil => exact absurd rfl some
    | cons p xs =>
      have other := front.1 p rfl
      simp [other]

theorem roles_semicolon_fresh (s : ReadState) (x y : List Char) (following : Option Char) :
    ∀ p ∈ (roles (s.after (x ++ [';']) following) y).head?, p.2 ≠ .continues := by
  intro p first
  cases y with
  | nil => cases first
  | cons c y =>
    cases first
    have region : (s.after (x ++ [';']) following).region = (s.after x (some ';')).region.settled := by
      rw [ReadState.after_append]
      simp only [ReadState.after, next_semicolon]
      rfl
    apply ReadState.read_fresh
    · rw [region]
      cases (s.after x (some ';')).region <;> simp [Region.settled]
    · intro e
      rw [region]
      cases (s.after x (some ';')).region <;> simp [Region.settled]

/-- A rewriting that keeps the tokens place by place keeps their sequence but for the zeros. -/
theorem coerced_of_keepsTokens {ps : List Piece} (forms : Forms ps) {s s' : ReadState}
    (keeps : KeepsTokens s s' ps) :
    Coerced (contents (roles s (original ps))) (contents (roles s' (rewritten ps))) ∧
      ((roles s (original ps)).takeWhile (·.2 = .continues)).map Prod.fst =
        ((roles s' (rewritten ps)).takeWhile (·.2 = .continues)).map Prod.fst := by
  induction ps generalizing s s' with
  | nil => exact ⟨.done, rfl⟩
  | cons p ps ih =>
    obtain ⟨here, later⟩ := keeps
    obtain ⟨tokens, goes⟩ := ih forms.tail later
    cases p with
    | kept c =>
      have role : (s.read c (original ps).head?).2 = (s'.read c (rewritten ps).head?).2 := here
      have goes' : ((roles (s.next c (original ps).head?) (original ps)).takeWhile
            (·.2 = .continues)).map Prod.fst =
          ((roles (s'.next c (rewritten ps).head?) (rewritten ps)).takeWhile
            (·.2 = .continues)).map Prod.fst := goes
      simp only [original_cons, rewritten_cons, Piece.old, Piece.new, List.cons_append,
        List.nil_append, roles, ← role]
      cases (s.read c (original ps).head?).2 with
      | opens kind =>
        rw [contents_opens, contents_opens, goes']
        exact ⟨.same _ tokens, rfl⟩
      | continues =>
        rw [contents_continues, contents_continues]
        refine ⟨tokens, ?_⟩
        simp [goes']
      | skipped =>
        rw [contents_skipped, contents_skipped]
        exact ⟨tokens, rfl⟩
    | swapped old new =>
      obtain ⟨cs, cs', holds, holds', replaced⟩ := here
      obtain ⟨shape, z, same, same'⟩ := forms old new List.mem_cons_self
      obtain ⟨x, text⟩ := z.old_last
      obtain ⟨y, text'⟩ := z.new_last
      rw [← same] at text
      rw [← same'] at text'
      simp only [original_cons, rewritten_cons, Piece.old, Piece.new, roles_append]
      have fresh := roles_semicolon_fresh s x (original ps) (original ps).head?
      have fresh' := roles_semicolon_fresh s' y (rewritten ps) (rewritten ps).head?
      rw [← text] at fresh
      rw [← text'] at fresh'
      obtain ⟨whole, none⟩ := holds.append fresh rfl (by rw [text]; cases x <;> simp [rolesBefore])
      obtain ⟨whole', none'⟩ := holds'.append fresh' rfl
        (by rw [text']; cases y <;> simp [rolesBefore])
      rw [whole, whole', none, none']
      exact ⟨.append replaced tokens, rfl⟩

def tokenTexts (source : List Char) : List (TokenKind × List Char) :=
  (tokens source).map Token.content

theorem zeroPieces_forms (document : List Char) : Forms (zeroPieces false document) :=
  fun _ _ listed => zeroPieces_swapped listed

/-- The zero initializers of a document get new forms that keep its tokens, place by place, exactly
    if each of them stands where it can, and then the tokens are the same but for the zeros. -/
theorem zero_tokens_iff (document : List Char) :
    (KeepsTokens .start .start (zeroPieces false document) ↔
      Harmless .start (zeroPieces false document)) ∧
    (KeepsTokens .start .start (zeroPieces false document) →
      Coerced (tokenTexts document) (tokenTexts (coerceZeros document))) := by
  have forms := zeroPieces_forms document
  refine ⟨keepsTokens_iff_harmless forms .start, ?_⟩
  intro keeps
  have coerced := (coerced_of_keepsTokens forms keeps).1
  rw [original_zeroPieces, rewritten_zeroPieces] at coerced
  exact coerced

theorem Coerced.of_nil {ts : List (TokenKind × List Char)} (coerced : Coerced ts []) : ts = [] := by
  cases coerced with
  | done => rfl

theorem not_coerced_comment :
    ¬ Coerced (tokenTexts "// float\nx = 0;".toList)
      (tokenTexts (coerceZeros "// float\nx = 0;".toList)) := by
  have none : tokenTexts (coerceZeros "// float\nx = 0;".toList) = [] := by decide +kernel
  have some : tokenTexts "// float\nx = 0;".toList ≠ [] := by decide +kernel
  intro coerced
  rw [none] at coerced
  exact some coerced.of_nil

end ShaderBench.Shader
