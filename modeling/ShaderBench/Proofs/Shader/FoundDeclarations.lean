import ShaderBench.Proofs.Shader.Places
/-
Which of the declarations that are written in a text are found. The search goes on behind the one
found last, and an initializer goes on to the next semicolon, so that one without a semicolon of its
own takes in the declaration after it; nothing else keeps one from being found.
-/
namespace ShaderBench.Shader
open Text

/-- A declaration that is written somewhere in a text. -/
def Written (source : List Char) (own : List Token) (d : Declaration) : Prop :=
  own <:+: tokens source ∧ Spells source own d

def FindsPlain (source : List Char) : Prop :=
  ∀ own d, Written source own d → d.initializer = none → d ∈ declarations source

/-- A declaration that goes on to the semicolon of another one, which has no initializer. -/
def Swallows (source : List Char) (d : Declaration) : Prop :=
  ∃ head own d', Written source (head ++ own) d ∧ head ≠ [] ∧ Spells source own d' ∧
    d'.initializer = none

section Spelled
variable {source : List Char} {own own' rest rest' : List Token} {d d' : Declaration}

theorem Spells.same (spells : Spells source own d) (spells' : Spells source own d') : d = d' := by
  have read := spells.read []
  rw [spells'.read []] at read
  cases read
  rfl

theorem Spells.inside (spells : Spells source own d) (spells' : Spells source own' d')
    {head more : List Token} (same : own' ++ rest = head ++ own ++ more)
    (begins : head.length < own'.length) : own' = head ++ own ∧ rest = more := by
  obtain ⟨keyword, inner, semicolon, rfl, _, ends, before, _⟩ := spells.ends
  obtain ⟨keyword', inner', semicolon', rfl, _, ends', before', _⟩ := spells'.ends
  generalize keyword :: inner = front at *
  generalize keyword' :: inner' = front' at *
  -- Both end at the first semicolon, since there is none before the inner one begins.
  have early : ∀ t ∈ head, ¬ t.isPunct ';' := by
    have shorter : head.length ≤ front'.length := by simpa [Nat.lt_succ_iff] using begins
    have initial : head <+: front' ++ semicolon' :: rest :=
      ⟨front ++ semicolon :: more, by simpa using same.symm⟩
    have within := List.prefix_of_prefix_length_le initial (List.prefix_append front' _) shorter
    exact fun t listed => before' t (within.subset listed)
  have all : ∀ t ∈ head ++ front, ¬ t.isPunct ';' := by
    intro t listed
    rcases List.mem_append.mp listed with here | there
    · exact early t here
    · exact before t there
  have text : front' ++ semicolon' :: rest = head ++ front ++ semicolon :: more := by
    simpa using same
  have fronts : front' = head ++ front := by
    have read := takeWhile_semicolon before' ends' rest
    rw [text, takeWhile_semicolon all ends more] at read
    exact read.symm
  rw [fronts] at text
  obtain ⟨marks, rests⟩ := List.cons.inj (List.append_cancel_left text)
  exact ⟨by rw [fronts, marks, List.append_assoc], rests⟩

end Spelled

section Search
variable {source : List Char} {own own' : List Token} {d d' : Declaration}

theorem collect_spelled {ts : List Token} (listed : d ∈ collect source ts) :
    ∃ own, own <:+: ts ∧ Spells source own d := by
  induction ts using collect.induct source with
  | case1 => simp [collect] at listed
  | case2 t ts d' rest found ih =>
    obtain ⟨own', same, spells'⟩ := spells_of_declarationAt? found
    rw [collect, found] at listed
    rcases List.mem_cons.mp listed with here | later
    · subst here
      exact ⟨own', same ▸ (List.prefix_append own' rest).isInfix, spells'⟩
    · obtain ⟨own, inside, spells⟩ := ih later
      exact ⟨own, inside.trans (same ▸ (List.suffix_append own' rest).isInfix), spells⟩
  | case3 t ts none ih =>
    rw [collect, none] at listed
    obtain ⟨own, inside, spells⟩ := ih listed
    exact ⟨own, inside.trans (List.suffix_cons t ts).isInfix, spells⟩

/-- The search comes to a spelled declaration, or it finds another one that ends with it. -/
theorem collect_reaches (spells : Spells source own d) {ts head more : List Token}
    (parts : ts = head ++ own ++ more) :
    ∃ front d', front <:+ head ∧ Spells source (front ++ own) d' ∧ d' ∈ collect source ts := by
  induction ts using collect.induct source generalizing head with
  | case1 =>
    obtain ⟨keyword, inner, semicolon, rfl, _⟩ := spells.ends
    simp at parts
  | case2 t ts d' rest found ih =>
    obtain ⟨own', same, spells'⟩ := spells_of_declarationAt? found
    rw [collect, found]
    rw [same] at parts
    rcases lt_or_ge head.length own'.length with begins | behind
    · obtain ⟨whole, _⟩ := spells.inside spells' parts begins
      exact ⟨head, d', List.suffix_rfl, whole ▸ spells', List.mem_cons_self⟩
    · -- The one that is found first lies before.
      have initial : own' <+: head ++ (own ++ more) := ⟨rest, by rw [parts, List.append_assoc]⟩
      obtain ⟨head', rfl⟩ :=
        List.prefix_of_prefix_length_le initial (List.prefix_append head _) behind
      have later : rest = head' ++ own ++ more := by simpa using parts
      obtain ⟨front, e, inside, spells'', listed⟩ := ih later
      exact ⟨front, e, inside.trans (List.suffix_append own' head'), spells'',
        List.mem_cons_of_mem d' listed⟩
  | case3 t ts none ih =>
    rw [collect, none]
    cases head with
    | nil =>
      have read := spells.read more
      rw [List.nil_append] at parts
      rw [← parts, none] at read
      cases read
    | cons u head =>
      obtain ⟨front, e, inside, spells', listed⟩ := ih (List.cons.inj parts).2
      exact ⟨front, e, inside.trans (List.suffix_cons u head), spells', listed⟩

theorem Written.reached (written : Written source own d) :
    d ∈ declarations source ∨ ∃ head d', head ≠ [] ∧ Written source (head ++ own) d' ∧
      d' ∈ declarations source := by
  obtain ⟨⟨head, more, parts⟩, spells⟩ := written
  obtain ⟨front, d', inside, spells', listed⟩ := collect_reaches spells parts.symm
  cases front with
  | nil => exact .inl (spells.same spells' ▸ listed)
  | cons t front =>
    refine .inr ⟨t :: front, d', List.cons_ne_nil t front, ⟨?_, spells'⟩, listed⟩
    obtain ⟨early, rfl⟩ := inside
    exact ⟨early, more, by rw [← parts]; simp⟩

theorem Written.wide (written : Written source own d) : d.start < d.stop := by
  obtain ⟨inside, spells⟩ := written
  obtain ⟨keyword, inner, semicolon, rfl, _, _, _, start, stop⟩ := spells.ends
  have order := (Apart.ordered (tokens_apart source)).sublist inside.sublist
  rw [List.pairwise_append] at order
  have later := order.2.2 keyword List.mem_cons_self semicolon List.mem_cons_self
  have wide : keyword.start < keyword.stop := gather_wide (inside.subset (by simp))
  have wide' : semicolon.start < semicolon.stop := gather_wide (inside.subset (by simp))
  omega

theorem Written.swallows {head : List Token} (written : Written source (head ++ own) d)
    (more : head ≠ []) (spells : Spells source own d') : d.start < d'.start ∧ d.stop = d'.stop := by
  obtain ⟨inside, spells'⟩ := written
  obtain ⟨keyword, inner, semicolon, rfl, _, _, _, start, stop⟩ := spells.ends
  obtain ⟨keyword', inner', semicolon', same, _, _, _, start', stop'⟩ := spells'.ends
  obtain ⟨first, head, rfl⟩ := List.exists_cons_of_ne_nil more
  obtain ⟨rfl, _⟩ := List.cons.inj same
  have last : semicolon = semicolon' := by
    have ends := congrArg List.getLast? same
    simpa [List.getLast?_cons] using ends
  have order := (Apart.ordered (tokens_apart source)).sublist inside.sublist
  rw [List.pairwise_append] at order
  have later := order.2.2 first List.mem_cons_self keyword (by simp)
  have wide : first.start < first.stop := gather_wide (inside.subset (by simp))
  rw [start, start', stop, stop', last]
  exact ⟨by omega, rfl⟩

theorem declarations_ordered (source : List Char) :
    (declarations source).Pairwise fun d e => d.stop ≤ e.start :=
  List.pairwise_map.mp (declarations_apart source).pairwise

theorem declarations_written (listed : d ∈ declarations source) : ∃ own, Written source own d :=
  collect_spelled listed

theorem declarations_clear (listed : d ∈ declarations source) (listed' : d' ∈ declarations source)
    (first : d.start < d'.start) : d.stop ≤ d'.start := by
  have order := declarations_ordered source
  have forth : (declarations source).Pairwise fun d e => d.start < e.start → d.stop ≤ e.start := by
    refine order.imp fun {d e} before _ => ?_
    exact before
  have back : (declarations source).Pairwise
      (flip fun d e : Declaration => d.start < e.start → d.stop ≤ e.start) := by
    refine order.imp_of_mem fun {d e} listed _ before first => ?_
    obtain ⟨_, written⟩ := declarations_written listed
    have wide := written.wide
    omega
  exact forth.forall_of_forall_of_flip (fun d _ first => absurd first (lt_irrefl d.start)) back
    listed listed' first

/-- A written declaration is found just if no other one that is found covers its beginning. -/
theorem Written.found_iff (written : Written source own d) :
    d ∈ declarations source ↔
      ∀ d' ∈ declarations source, d'.start < d.start → d'.stop ≤ d.start := by
  constructor
  · intro listed d' listed' first
    exact declarations_clear listed' listed first
  · intro clear
    rcases written.reached with found | ⟨head, d', more, written', listed⟩
    · exact found
    · obtain ⟨first, last⟩ := written'.swallows more written.2
      have before := clear d' listed first
      have wide := written.wide
      omega

theorem findsPlain_iff (source : List Char) :
    FindsPlain source ↔ ∀ d ∈ declarations source, ¬ Swallows source d := by
  constructor
  · rintro finds d listed ⟨head, own, d', written, more, spells, plain⟩
    have written' : Written source own d' :=
      ⟨(List.suffix_append head own).isInfix.trans written.1, spells⟩
    obtain ⟨first, last⟩ := written.swallows more spells
    have before := declarations_clear listed (finds own d' written' plain) first
    have wide := written'.wide
    omega
  · intro spared own d written plain
    rcases written.reached with found | ⟨head, d', more, written', listed⟩
    · exact found
    · exact absurd ⟨head, own, d, written', more, written.2, plain⟩ (spared d' listed)

end Search

/-- What is found in a text. Each declaration without an initializer is found just if none is
    swallowed by one that is found; and of all that are written just those are found whose beginning
    no other one covers. Those that are found are written there, from the keyword through the
    semicolon, one after the other. -/
theorem declarations_found (source : List Char) :
    (FindsPlain source ↔ ∀ d ∈ declarations source, ¬ Swallows source d) ∧
      (∀ own d, Written source own d → (d ∈ declarations source ↔
        ∀ d' ∈ declarations source, d'.start < d.start → d'.stop ≤ d.start)) ∧
      (∀ d ∈ declarations source, d.start < d.stop ∧ ∃ own, Written source own d) ∧
      (declarations source).Pairwise fun d e => d.stop ≤ e.start := by
  refine ⟨findsPlain_iff source, fun own d written => written.found_iff, fun d listed => ?_,
    declarations_ordered source⟩
  obtain ⟨own, written⟩ := declarations_written listed
  exact ⟨written.wide, own, written⟩

def unendedDeclaration : List Char := "uniform float a = 1.0\nuniform float b;".toList

theorem second_declaration_missed : ¬ FindsPlain unendedDeclaration := by
  intro finds
  have written : Written unendedDeclaration
      [⟨.ident, 22, "uniform".toList⟩, ⟨.ident, 30, "float".toList⟩, ⟨.ident, 36, ['b']⟩,
        ⟨.punct, 37, [';']⟩] ⟨22, 38, "float", "b", none⟩ :=
    ⟨⟨(tokens unendedDeclaration).take 5, [], by decide +kernel⟩, .plain rfl rfl rfl rfl⟩
  have listed := finds _ _ written rfl
  revert listed
  decide +kernel

end ShaderBench.Shader
