import ShaderBench.Proofs.Shader.Reading
import ShaderBench.Shader.Declaration
/-
Declarations in a text that is put together from parts: they lie in it one after the other, and
the ones of a last part are those of that part by itself, moved.
-/
namespace ShaderBench.Shader
open Text

attribute [grind =] declarationAt? collect

def Declaration.span (d : Declaration) : Nat × Nat := (d.start, d.stop)

def Declaration.moved (bytes : Nat) (d : Declaration) : Declaration :=
  { d with start := bytes + d.start, stop := bytes + d.stop }

def Token.isKeyword (t : Token) : Bool := t.isIdent && t.text = "uniform".toList

theorem isPunct_iff {t : Token} {c : Char} : t.isPunct c ↔ t.kind = .punct ∧ t.text = [c] := by
  simp [Token.isPunct]

theorem ident_not_punct {t : Token} (ident : t.isIdent) (c : Char) : ¬ t.isPunct c := by
  intro mark
  have kind := of_decide_eq_true ident
  rw [(isPunct_iff.mp mark).1] at kind
  cases kind

theorem Token.isKeyword_iff {t : Token} :
    t.isKeyword ↔ t.isIdent ∧ t.text = "uniform".toList := by
  rw [Token.isKeyword, Bool.and_eq_true, decide_eq_true_eq]

theorem takeWhile_semicolon {front : List Token} {semicolon : Token}
    (before : ∀ t ∈ front, ¬ t.isPunct ';') (ends : semicolon.isPunct ';') (rest : List Token) :
    (front ++ semicolon :: rest).takeWhile (fun t => !t.isPunct ';') = front := by
  rw [List.takeWhile_append_of_pos (by simpa using before)]
  simp [ends]

theorem dropWhile_semicolon {front : List Token} {semicolon : Token}
    (before : ∀ t ∈ front, ¬ t.isPunct ';') (ends : semicolon.isPunct ';') (rest : List Token) :
    (front ++ semicolon :: rest).dropWhile (fun t => !t.isPunct ';') = semicolon :: rest := by
  rw [List.dropWhile_append_of_pos (by simpa using before)]
  simp [ends]

/-- How a declaration is written: its tokens, and what is read from them. -/
inductive Spells (source : List Char) : List Token → Declaration → Prop
  | plain {keyword type name semicolon : Token} :
      keyword.isKeyword → type.isIdent → name.isIdent → semicolon.isPunct ';' →
      Spells source [keyword, type, name, semicolon]
        ⟨keyword.start, semicolon.stop, String.ofList type.text, String.ofList name.text, none⟩
  | valued {keyword type name equals semicolon : Token} {value : List Token} :
      keyword.isKeyword → type.isIdent → name.isIdent → equals.isPunct '=' → value ≠ [] →
      (∀ t ∈ value, ¬ t.isPunct ';') → semicolon.isPunct ';' →
      Spells source (keyword :: type :: name :: equals :: value ++ [semicolon])
        ⟨keyword.start, semicolon.stop, String.ofList type.text, String.ofList name.text,
          some (trim (textOf source value))⟩

section Spelled
variable {source : List Char} {own rest : List Token} {d : Declaration}

theorem Spells.ends (spells : Spells source own d) :
    ∃ keyword inner semicolon, own = keyword :: inner ++ [semicolon] ∧ keyword.isKeyword ∧
      semicolon.isPunct ';' ∧ (∀ t ∈ keyword :: inner, ¬ t.isPunct ';') ∧
      d.start = keyword.start ∧ d.stop = semicolon.stop := by
  cases spells with
  | @plain keyword type name semicolon opens typed named ends =>
    refine ⟨keyword, [type, name], semicolon, rfl, opens, ends, ?_, rfl, rfl⟩
    simp only [List.forall_mem_cons]
    exact ⟨ident_not_punct (Token.isKeyword_iff.mp opens).1 _, ident_not_punct typed _,
      ident_not_punct named _, by simp⟩
  | @valued keyword type name equals semicolon value opens typed named mark filled inside ends =>
    refine ⟨keyword, type :: name :: equals :: value, semicolon, rfl, opens, ends, ?_, rfl, rfl⟩
    have other : ¬ equals.isPunct ';' := by
      rw [isPunct_iff, (isPunct_iff.mp mark).2]
      simp
    simp only [List.forall_mem_cons]
    exact ⟨ident_not_punct (Token.isKeyword_iff.mp opens).1 _, ident_not_punct typed _,
      ident_not_punct named _, other, inside⟩

theorem Token.words {keyword type name : Token} (opens : keyword.isKeyword) (typed : type.isIdent)
    (named : name.isIdent) : (keyword.isIdent && decide (keyword.text = "uniform".toList) &&
      type.isIdent && name.isIdent) = true := by
  rw [Token.isKeyword] at opens
  rw [opens, typed, named]
  rfl

theorem Spells.read (spells : Spells source own d) (rest : List Token) :
    declarationAt? source (own ++ rest) = some (d, rest) := by
  cases spells with
  | plain opens typed named ends =>
    have words := Token.words opens typed named
    simp only [List.cons_append, List.nil_append, declarationAt?, words, ends, if_true]
  | @valued keyword type name equals semicolon value opens typed named mark filled inside ends =>
    have words := Token.words opens typed named
    have other : equals.isPunct ';' = false := by
      simp [Token.isPunct, (isPunct_iff.mp mark).2]
    simp only [List.cons_append, List.append_assoc, List.nil_append, declarationAt?, words, other,
      mark, if_true, Bool.false_eq_true, if_false]
    rw [takeWhile_semicolon inside ends, dropWhile_semicolon inside ends]
    simp [filled]

theorem spells_of_declarationAt? {ts : List Token}
    (found : declarationAt? source ts = some (d, rest)) :
    ∃ own, ts = own ++ rest ∧ Spells source own d := by
  unfold declarationAt? at found
  split at found
  · rename_i keyword type name mark after
    simp only at found
    split at found
    · rename_i words
      simp only [Bool.and_eq_true, decide_eq_true_eq] at words
      obtain ⟨⟨⟨ident, text⟩, typed⟩, named⟩ := words
      have opens := Token.isKeyword_iff.mpr ⟨ident, text⟩
      split at found
      · rename_i ends
        cases found
        exact ⟨_, rfl, .plain opens typed named ends⟩
      · split at found
        · rename_i starts
          split at found
          · cases found
          · rename_i semicolon later dropped
            split at found
            · cases found
            · rename_i filled
              cases found
              have whole := List.takeWhile_append_dropWhile (p := fun t : Token => !t.isPunct ';')
                (l := after)
              have value : ∀ t ∈ after.takeWhile fun t : Token => !t.isPunct ';', ¬ t.isPunct ';' := by
                intro t listed
                simpa using List.mem_takeWhile_imp (p := fun t : Token => !t.isPunct ';') listed
              have stops : semicolon.isPunct ';' := by
                have first := List.head?_dropWhile_not (fun t : Token => !t.isPunct ';') after
                rw [dropped] at first
                simpa using first
              refine ⟨keyword :: type :: name :: mark ::
                (after.takeWhile fun t => !t.isPunct ';') ++ [semicolon], ?_,
                .valued opens typed named starts (by simpa using filled) value stops⟩
              rw [dropped] at whole
              simp [whole]
        · cases found
    · cases found
  · cases found

end Spelled

theorem declarationAt?_tokens {source : List Char} {ts rest : List Token} {d : Declaration}
    (found : declarationAt? source ts = some (d, rest)) :
    ∃ first type name middle last, ts = first :: type :: name :: middle ++ last :: rest ∧
      d.start = first.start ∧ d.stop = last.stop ∧ d.typeName = String.ofList type.text ∧
      name.isIdent ∧ d.name = String.ofList name.text := by
  obtain ⟨own, rfl, spells⟩ := spells_of_declarationAt? found
  cases spells with
  | plain opens typed named ends => exact ⟨_, _, _, [], _, rfl, rfl, rfl, rfl, named, rfl⟩
  | @valued keyword type name equals semicolon value opens typed named mark filled inside ends =>
    exact ⟨keyword, type, name, equals :: value, semicolon, by simp, rfl, rfl, rfl, named, rfl⟩

theorem Apart.enclose {position : Nat} {s : List Char} {first last : Nat × Nat}
    {middle rest : List (Nat × Nat)}
    (apart : Apart position s (first :: middle ++ last :: rest)) :
    Apart position s ((first.1, last.2) :: rest) := by
  have ends : (first :: last :: rest).Sublist (first :: middle ++ last :: rest) := by
    rw [List.cons_append]
    exact (List.sublist_append_right middle (last :: rest)).cons_cons first
  exact (apart.sublist ends).join

theorem collect_apart (source : List Char) {position : Nat} {s : List Char} {ts : List Token}
    (apart : Apart position s (ts.map Token.span)) :
    Apart position s ((collect source ts).map Declaration.span) := by
  induction ts using collect.induct source generalizing position s with
  | case1 => simp [collect, Apart]
  | case2 t ts d rest found ih =>
    obtain ⟨first, type, name, middle, last, same, start, stop, _⟩ := declarationAt?_tokens found
    rw [same, List.map_append, List.map_cons] at apart
    obtain ⟨gap, inner, after, text, begins, ends, tail⟩ := Apart.enclose apart
    rw [collect, found]
    refine ⟨gap, inner, after, text, start.trans begins, ?_, ?_⟩
    · rw [start, stop]
      exact ends
    · rw [stop]
      exact ih tail
  | case3 t ts none ih =>
    rw [collect, none]
    exact ih apart.tail

theorem declarations_apart (source : List Char) :
    Apart 0 source ((declarations source).map Declaration.span) :=
  collect_apart source (tokens_apart source)

theorem collect_name {source : List Char} {ts : List Token}
    (named : ∀ t ∈ ts, t.isIdent → ∀ c ∈ t.text, continuesName c) :
    ∀ d ∈ collect source ts, ∀ c ∈ d.name.toList, continuesName c := by
  induction ts using collect.induct source with
  | case1 => simp [collect]
  | case2 t ts d rest found ih =>
    obtain ⟨first, type, name, middle, last, same, _, _, _, ident, text⟩ :=
      declarationAt?_tokens found
    rw [same] at named
    rw [collect, found]
    intro e listed
    rcases List.mem_cons.mp listed with here | later
    · subst here
      rw [text, String.toList_ofList]
      exact named name (by simp) ident
    · refine ih (fun u member => named u ?_) e later
      simp [member]
  | case3 t ts none ih =>
    rw [collect, none]
    exact ih fun u member => named u (List.mem_cons_of_mem t member)

theorem declarations_name {source : List Char} {d : Declaration}
    (listed : d ∈ declarations source) : ∀ c ∈ d.name.toList, continuesName c :=
  collect_name (fun _ member ident => ident_text member ident) d listed

section Moved
variable (front source : List Char)

theorem textOf_moved (ts : List Token) :
    textOf (front ++ source) (ts.map (Token.moved (byteLength front))) = textOf source ts := by
  unfold textOf
  rw [List.head?_map, List.getLast?_map]
  cases ts.head? with
  | none => rfl
  | some first =>
    cases ts.getLast? with
    | none => rfl
    | some last => simp only [Option.map_some, Token.moved_start, Token.moved_stop, slice?_past]

theorem declarationAt?_moved (ts : List Token) :
    declarationAt? (front ++ source) (ts.map (Token.moved (byteLength front))) =
      (declarationAt? source ts).map fun found =>
        (found.1.moved (byteLength front), found.2.map (Token.moved (byteLength front))) := by
  match ts with
  | [] => rfl
  | [_] => rfl
  | [_, _] => rfl
  | [_, _, _] => rfl
  | keyword :: type :: name :: mark :: rest =>
    simp only [List.map_cons, declarationAt?]
    by_cases words : (keyword.isIdent && decide (keyword.text = "uniform".toList) &&
        type.isIdent && name.isIdent) = true
    · have words' : ((keyword.moved (byteLength front)).isIdent &&
          decide ((keyword.moved (byteLength front)).text = "uniform".toList) &&
          (type.moved (byteLength front)).isIdent &&
          (name.moved (byteLength front)).isIdent) = true := words
      rw [if_pos words, if_pos words']
      simp only [Token.moved_isPunct, List.takeWhile_map, List.dropWhile_map, Function.comp_def,
        List.isEmpty_map, textOf_moved, Token.moved_text, Token.moved_start, Token.moved_stop]
      split_ifs with ends starts blank
      · rfl
      · cases rest.dropWhile fun t => !t.isPunct ';' <;> rfl
      · cases rest.dropWhile fun t => !t.isPunct ';' with
        | nil => rfl
        | cons semicolon later =>
          simp only [List.map_cons, Token.moved_stop]
          rfl
      · rfl
    · have words' : ¬ ((keyword.moved (byteLength front)).isIdent &&
          decide ((keyword.moved (byteLength front)).text = "uniform".toList) &&
          (type.moved (byteLength front)).isIdent &&
          (name.moved (byteLength front)).isIdent) = true := words
      rw [if_neg words, if_neg words']
      rfl

theorem collect_moved (ts : List Token) :
    collect (front ++ source) (ts.map (Token.moved (byteLength front))) =
      (collect source ts).map (Declaration.moved (byteLength front)) := by
  induction ts using collect.induct source with
  | case1 => simp [collect]
  | case2 t ts d rest found ih =>
    have moved := declarationAt?_moved front source (t :: ts)
    rw [found] at moved
    rw [List.map_cons] at moved ⊢
    rw [collect, moved, collect, found]
    simp only [Option.map_some, ih, List.map_cons]
  | case3 t ts none ih =>
    have moved := declarationAt?_moved front source (t :: ts)
    rw [none] at moved
    rw [List.map_cons] at moved ⊢
    rw [collect, moved, collect, none]
    exact ih

end Moved

theorem declarationAt?_other {source : List Char} {t : Token} (other : t.text ≠ "uniform".toList)
    (ts : List Token) : declarationAt? source (t :: ts) = none := by
  match ts with
  | [] => rfl
  | [_] => rfl
  | [_, _] => rfl
  | type :: name :: mark :: rest =>
    simp only [declarationAt?]
    rw [if_neg]
    intro words
    simp only [Bool.and_eq_true, decide_eq_true_eq] at words
    exact other words.1.1.2

theorem declarationAt?_unnamed {source : List Char} {name : Token} (unnamed : ¬ name.isIdent)
    (t type : Token) (ts : List Token) : declarationAt? source (t :: type :: name :: ts) = none := by
  match ts with
  | [] => rfl
  | mark :: rest =>
    simp only [declarationAt?]
    rw [if_neg]
    intro words
    simp only [Bool.and_eq_true] at words
    exact unnamed words.2

/-- Whether no declaration begins at one of some tokens, whatever follows them. -/
@[grind =] def declaresNothing : List (TokenKind × List Char) → Bool
  | [] => true
  | (_, word) :: rest =>
    (word ≠ "uniform".toList || match rest with
      | _ :: (kind, _) :: _ => kind ≠ .ident
      | _ => false) && declaresNothing rest

theorem collect_declaresNothing (source : List Char) {ts : List Token}
    (nothing : declaresNothing (ts.map Token.content)) (more : List Token) :
    collect source (ts ++ more) = collect source more := by
  induction ts with
  | nil => rfl
  | cons t ts ih =>
    simp only [List.map_cons, Token.content, declaresNothing, Bool.and_eq_true,
      Bool.or_eq_true, decide_eq_true_eq] at nothing
    obtain ⟨here, later⟩ := nothing
    have none : declarationAt? source (t :: (ts ++ more)) = none := by
      rcases here with other | short
      · exact declarationAt?_other other (ts ++ more)
      · match ts with
        | [] => simp at short
        | [_] => simp at short
        | type :: name :: rest =>
          have unnamed : ¬ name.isIdent := by
            simpa [Token.isIdent, Token.content] using short
          exact declarationAt?_unnamed unnamed t type (rest ++ more)
    rw [List.cons_append, collect, none]
    exact ih later

end ShaderBench.Shader
