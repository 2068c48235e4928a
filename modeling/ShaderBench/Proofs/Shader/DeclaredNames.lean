import ShaderBench.Proofs.Shader.Places
import ShaderBench.Proofs.Shader.ZeroTokens
/-
What some tokens declare: types and names show from the words and marks alone, and the zeros of
initializers make no difference to them.
-/
namespace ShaderBench.Shader
open Text

def Declaration.head (d : Declaration) : String × String := (d.typeName, d.name)

def isSemicolon (c : TokenKind × List Char) : Bool := c = (.punct, [';'])

theorem isSemicolon_content (t : Token) : isSemicolon t.content = t.isPunct ';' := by
  simp [isSemicolon, Token.content, Token.isPunct]

/-- The tokens of a text with some of its zeros replaced by the zero of a type. -/
inductive Zeroed : List (TokenKind × List Char) → List (TokenKind × List Char) → Prop
  | done : Zeroed [] []
  | same (c : TokenKind × List Char) {cs ds : List (TokenKind × List Char)} :
      Zeroed cs ds → Zeroed (c :: cs) (c :: ds)
  | zero (type : List Char) {cs ds : List (TokenKind × List Char)} :
      Zeroed cs ds → Zeroed ((.number, ['0']) :: cs) (typedZero type ++ ds)

theorem Zeroed.refl (cs : List (TokenKind × List Char)) : Zeroed cs cs := by
  induction cs with
  | nil => exact .done
  | cons c cs ih => exact .same c ih

theorem Coerced.zeroed {cs ds : List (TokenKind × List Char)} (coerced : Coerced cs ds) :
    Zeroed cs ds := by
  induction coerced with
  | done => exact .done
  | same c _ ih => exact .same c ih
  | @zero type name cs ds _ _ ih =>
    simp only [declared, plainZero, List.cons_append, List.append_assoc, List.nil_append]
    exact .same _ (.same _ (.same _ (.zero type (.same _ ih))))

theorem typedZero_cases (type : List Char) :
    typedZero type = [(.number, "0.0".toList)] ∨
      typedZero type =
        [(.ident, type), (.punct, ['(']), (.number, "0.0".toList), (.punct, [')'])] := by
  unfold typedZero
  split
  · exact .inl rfl
  · exact .inr rfl

theorem Zeroed.semicolon {cs ds : List (TokenKind × List Char)} (zeroed : Zeroed cs ds) :
    ((cs.takeWhile fun c => !isSemicolon c) = [] ↔ (ds.takeWhile fun c => !isSemicolon c) = []) ∧
      Zeroed (cs.dropWhile fun c => !isSemicolon c) (ds.dropWhile fun c => !isSemicolon c) := by
  induction zeroed with
  | done => exact ⟨Iff.rfl, .done⟩
  | same c zeroed ih =>
    by_cases ends : isSemicolon c
    · simpa [ends] using Zeroed.same c zeroed
    · simpa [ends] using ih.2
  | zero type _ ih =>
    rcases typedZero_cases type with scalar | vector
    · rw [scalar]
      simpa [isSemicolon] using ih.2
    · rw [vector]
      simpa [isSemicolon] using ih.2

theorem Zeroed.ways {cs ds : List (TokenKind × List Char)} (zeroed : Zeroed cs ds) :
    (cs = [] ∧ ds = []) ∨ (∃ c cs' ds', cs = c :: cs' ∧ ds = c :: ds' ∧ Zeroed cs' ds') ∨
      ∃ type cs' ds', cs = (.number, ['0']) :: cs' ∧ ds = typedZero type ++ ds' ∧
        Zeroed cs' ds' := by
  cases zeroed with
  | done => exact .inl ⟨rfl, rfl⟩
  | same c zeroed => exact .inr (.inl ⟨c, _, _, rfl, rfl, zeroed⟩)
  | zero type zeroed => exact .inr (.inr ⟨type, _, _, rfl, rfl, zeroed⟩)

theorem Zeroed.kept {c : TokenKind × List Char} {cs ds : List (TokenKind × List Char)}
    (zeroed : Zeroed (c :: cs) ds) (other : c.1 ≠ .number) : ∃ ds', ds = c :: ds' ∧ Zeroed cs ds' := by
  cases zeroed with
  | same c zeroed => exact ⟨_, rfl, zeroed⟩
  | zero type zeroed => exact absurd rfl other

theorem Zeroed.origin {d : TokenKind × List Char} {cs ds : List (TokenKind × List Char)}
    (zeroed : Zeroed cs (d :: ds)) (other : d.1 ≠ .number)
    (plain : d.1 = .ident → ds.head? ≠ some (.punct, ['('])) :
    ∃ cs', cs = d :: cs' ∧ Zeroed cs' ds := by
  rcases zeroed.ways with ⟨_, none⟩ | ⟨c, cs', ds', same, same', zeroed'⟩ |
    ⟨type, cs', ds', _, same, _⟩
  · cases none
  · cases same'
    exact ⟨cs', same, zeroed'⟩
  · rcases typedZero_cases type with scalar | vector
    · rw [scalar] at same
      cases same
      exact absurd rfl other
    · rw [vector] at same
      cases same
      exact absurd rfl (plain rfl)

def opening (type name : List Char) (mark : Char) : List (TokenKind × List Char) :=
  [(.ident, "uniform".toList), (.ident, type), (.ident, name), (.punct, [mark])]

theorem Zeroed.opening_kept {type name : List Char} {mark : Char}
    {cs ds : List (TokenKind × List Char)} (zeroed : Zeroed (opening type name mark ++ cs) ds) :
    ∃ ds', ds = opening type name mark ++ ds' ∧ Zeroed cs ds' := by
  obtain ⟨ds₁, same₁, zeroed₁⟩ := zeroed.kept (by simp)
  obtain ⟨ds₂, same₂, zeroed₂⟩ := zeroed₁.kept (by simp)
  obtain ⟨ds₃, same₃, zeroed₃⟩ := zeroed₂.kept (by simp)
  obtain ⟨ds₄, same₄, zeroed₄⟩ := zeroed₃.kept (by simp)
  exact ⟨ds₄, by rw [same₁, same₂, same₃, same₄]; rfl, zeroed₄⟩

theorem Zeroed.opening_origin {type name : List Char} {mark : Char} (other : mark ≠ '(')
    {cs ds : List (TokenKind × List Char)} (zeroed : Zeroed cs (opening type name mark ++ ds)) :
    ∃ cs', cs = opening type name mark ++ cs' ∧ Zeroed cs' ds := by
  obtain ⟨cs₁, same₁, zeroed₁⟩ := zeroed.origin (by simp) (by simp)
  obtain ⟨cs₂, same₂, zeroed₂⟩ := zeroed₁.origin (by simp) (by simp)
  obtain ⟨cs₃, same₃, zeroed₃⟩ := zeroed₂.origin (by simp) (by simp [other])
  obtain ⟨cs₄, same₄, zeroed₄⟩ := zeroed₃.origin (by simp) (by simp)
  exact ⟨cs₄, by rw [same₁, same₂, same₃, same₄]; rfl, zeroed₄⟩

/-- A declaration at the start of some tokens, with its type and its name, and the tokens after it. -/
inductive Declares : List (TokenKind × List Char) → String × String →
    List (TokenKind × List Char) → Prop
  | plain {type name : List Char} {rest : List (TokenKind × List Char)} :
      Declares (opening type name ';' ++ rest) (String.ofList type, String.ofList name) rest
  | valued {type name : List Char} {value rest : List (TokenKind × List Char)} :
      (value.takeWhile fun c => !isSemicolon c) ≠ [] →
      (value.dropWhile fun c => !isSemicolon c) = (.punct, [';']) :: rest →
      Declares (opening type name '=' ++ value) (String.ofList type, String.ofList name) rest

theorem Zeroed.declares {cs ds r : List (TokenKind × List Char)} {head : String × String}
    (zeroed : Zeroed cs ds) (declares : Declares cs head r) :
    ∃ r', Declares ds head r' ∧ Zeroed r r' := by
  cases declares with
  | plain =>
    obtain ⟨r', same, later⟩ := zeroed.opening_kept
    exact ⟨r', same ▸ .plain, later⟩
  | valued filled ends =>
    obtain ⟨value', same, values⟩ := zeroed.opening_kept
    obtain ⟨none_iff, later⟩ := values.semicolon
    rw [ends] at later
    obtain ⟨r', ends', later'⟩ := later.kept (by simp)
    exact ⟨r', same ▸ .valued (fun none => filled (none_iff.mpr none)) ends', later'⟩

theorem Zeroed.declared {cs ds r' : List (TokenKind × List Char)} {head : String × String}
    (zeroed : Zeroed cs ds) (declares : Declares ds head r') : ∃ r, Declares cs head r := by
  cases declares with
  | plain =>
    obtain ⟨r, same, _⟩ := zeroed.opening_origin (by decide)
    exact ⟨r, same ▸ .plain⟩
  | valued filled ends =>
    obtain ⟨value, same, values⟩ := zeroed.opening_origin (by decide)
    obtain ⟨none_iff, later⟩ := values.semicolon
    rw [ends] at later
    obtain ⟨r, ends', _⟩ := later.origin (by simp) (by simp)
    exact ⟨r, same ▸ .valued (fun none => filled (none_iff.mp none)) ends'⟩

theorem takeWhile_content (ts : List Token) :
    (ts.map Token.content).takeWhile (fun c => !isSemicolon c) =
      (ts.takeWhile fun t => !t.isPunct ';').map Token.content := by
  simp only [List.takeWhile_map, Function.comp_def, isSemicolon_content]

theorem dropWhile_content (ts : List Token) :
    (ts.map Token.content).dropWhile (fun c => !isSemicolon c) =
      (ts.dropWhile fun t => !t.isPunct ';').map Token.content := by
  simp only [List.dropWhile_map, Function.comp_def, isSemicolon_content]

theorem content_punct {t : Token} {c : Char} (mark : t.isPunct c) : t.content = (.punct, [c]) := by
  obtain ⟨kind, text⟩ := isPunct_iff.mp mark
  rw [Token.content, kind, text]

theorem content_ident {t : Token} (ident : t.isIdent) : t.content = (.ident, t.text) := by
  rw [Token.content, of_decide_eq_true ident]

theorem declares_of_declarationAt? {source : List Char} {ts rest : List Token} {d : Declaration}
    (found : declarationAt? source ts = some (d, rest)) :
    Declares (ts.map Token.content) d.head (rest.map Token.content) := by
  obtain ⟨own, rfl, spells⟩ := spells_of_declarationAt? found
  cases spells with
  | plain opens typed named ends =>
    obtain ⟨ident, text⟩ := Token.isKeyword_iff.mp opens
    simp only [List.cons_append, List.nil_append, List.map_cons]
    rw [content_ident ident, text, content_ident typed, content_ident named, content_punct ends]
    exact .plain
  | @valued keyword type name equals semicolon value opens typed named mark filled inside ends =>
    obtain ⟨ident, text⟩ := Token.isKeyword_iff.mp opens
    simp only [List.cons_append, List.append_assoc, List.nil_append, List.map_cons]
    rw [content_ident ident, text, content_ident typed, content_ident named, content_punct mark]
    refine .valued ?_ ?_
    · rw [takeWhile_content, takeWhile_semicolon inside ends]
      simpa using filled
    · rw [dropWhile_content, dropWhile_semicolon inside ends, List.map_cons, content_punct ends]

theorem tokens_of_content {ts : List Token} {c : TokenKind × List Char}
    {cs : List (TokenKind × List Char)} (same : ts.map Token.content = c :: cs) :
    ∃ start ts', ts = ⟨c.1, start, c.2⟩ :: ts' ∧ ts'.map Token.content = cs := by
  obtain ⟨⟨kind, start, text⟩, ts', rfl, first, rest⟩ := List.map_eq_cons_iff.mp same
  cases first
  exact ⟨start, ts', rfl, rest⟩

theorem tokens_of_opening {ts : List Token} {type name : List Char} {mark : Char}
    {cs : List (TokenKind × List Char)} (same : ts.map Token.content = opening type name mark ++ cs) :
    ∃ a b c d rest, ts = ⟨.ident, a, "uniform".toList⟩ :: ⟨.ident, b, type⟩ :: ⟨.ident, c, name⟩ ::
      ⟨.punct, d, [mark]⟩ :: rest ∧ rest.map Token.content = cs := by
  obtain ⟨a, ts₁, rfl, same₁⟩ := tokens_of_content same
  obtain ⟨b, ts₂, rfl, same₂⟩ := tokens_of_content same₁
  obtain ⟨c, ts₃, rfl, same₃⟩ := tokens_of_content same₂
  obtain ⟨d, rest, rfl, same₄⟩ := tokens_of_content same₃
  exact ⟨a, b, c, d, rest, rfl, same₄⟩

theorem declarationAt?_of_declares (source : List Char) {ts : List Token} {head : String × String}
    {r : List (TokenKind × List Char)} (declares : Declares (ts.map Token.content) head r) :
    ∃ d rest, declarationAt? source ts = some (d, rest) ∧ d.head = head ∧
      rest.map Token.content = r := by
  generalize same : ts.map Token.content = cs at declares
  cases declares with
  | plain =>
    obtain ⟨_, _, _, _, rest, rfl, same'⟩ := tokens_of_opening same
    exact ⟨_, rest, rfl, rfl, same'⟩
  | @valued type name value _ filled ends =>
    obtain ⟨start, _, _, _, after, rfl, same'⟩ := tokens_of_opening same
    rw [← same', takeWhile_content] at filled
    rw [← same', dropWhile_content] at ends
    obtain ⟨place, rest, dropped, same''⟩ := tokens_of_content ends
    have long : (after.takeWhile fun t => !t.isPunct ';').isEmpty = false := by
      simpa using filled
    refine ⟨⟨start, (⟨.punct, place, [';']⟩ : Token).stop, String.ofList type, String.ofList name,
      some (trim (textOf source (after.takeWhile fun t => !t.isPunct ';')))⟩, rest, ?_, rfl, same''⟩
    simp only [declarationAt?]
    rw [if_pos (by rfl), if_neg (by simp [Token.isPunct]), if_pos (by rfl), dropped]
    simp only [long, Bool.false_eq_true, if_false]

/-- Tokens that are the same but for zeros declare the same types and names. -/
theorem collect_zeroed (source source' : List Char) {ts us : List Token}
    (zeroed : Zeroed (ts.map Token.content) (us.map Token.content)) :
    (collect source' us).map Declaration.head = (collect source ts).map Declaration.head := by
  induction ts using collect.induct source generalizing us with
  | case1 =>
    generalize same : us.map Token.content = ds at zeroed
    cases zeroed
    rw [List.map_eq_nil_iff.mp same]
    simp [collect]
  | case2 t ts d rest found ih =>
    obtain ⟨r, declares, later⟩ := zeroed.declares (declares_of_declarationAt? found)
    obtain ⟨d', rest', found', head, same⟩ := declarationAt?_of_declares source' declares
    subst same
    cases us with
    | nil => cases found'
    | cons u us =>
      have left : collect source' (u :: us) = d' :: collect source' rest' := by rw [collect, found']
      have right : collect source (t :: ts) = d :: collect source rest := by rw [collect, found]
      rw [left, right, List.map_cons, List.map_cons, head, ih later]
  | case3 t ts absent ih =>
    rw [collect, absent]
    rcases zeroed.ways with ⟨none', _⟩ | ⟨c, cs, ds, same, same', later⟩ |
      ⟨type, cs, ds, same, same', later⟩
    · cases none'
    · cases same
      obtain ⟨start, us', rfl, same''⟩ := tokens_of_content same'
      subst same''
      have absent' : declarationAt? source' (⟨t.content.1, start, t.content.2⟩ :: us') = none := by
        rw [Option.eq_none_iff_forall_ne_some]
        rintro ⟨d', rest'⟩ found'
        obtain ⟨r, declares⟩ := zeroed.declared (declares_of_declarationAt? found')
        obtain ⟨d, rest, found, _⟩ := declarationAt?_of_declares source declares
        rw [absent] at found
        cases found
      rw [collect, absent']
      exact ih later
    · obtain ⟨_, rest⟩ := List.cons.inj same
      subst rest
      obtain ⟨front, back, rfl, first, last⟩ := List.map_eq_append_iff.mp same'
      subst last
      have nothing : declaresNothing (front.map Token.content) := by
        rw [first]
        rcases typedZero_cases type with scalar | vector
        · rw [scalar]
          decide
        · rw [vector]
          exact Bool.and_eq_true_iff.mpr ⟨Bool.or_eq_true_iff.mpr (.inr rfl), by decide⟩
      rw [collect_declaresNothing source' nothing back]
      exact ih later

end ShaderBench.Shader
