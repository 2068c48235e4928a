import ShaderBench.Proofs.Shader.Declarations
import ShaderBench.Shader.Assembly
/-
The preamble before a document: it leaves the reader where a text starts and declares nothing, so
the declarations of a program are those of its body.
-/
namespace ShaderBench.Shader
open Text

/-- A text after which the reader is in its first state, and in which no declaration begins. -/
def Inert (x : List Char) : Prop :=
  ∀ following, ReadState.start.after x following = .start ∧
    declaresNothing (contents (rolesBefore following .start x))

theorem roles_start_fresh (x : List Char) : ∀ p ∈ (roles .start x).head?, p.2 ≠ .continues := by
  intro p first
  cases x with
  | nil => cases first
  | cons c x =>
    cases first
    exact ReadState.read_fresh c x.head? (by decide) (by simp [ReadState.start])

theorem rolesBefore_start_fresh (following : Option Char) (x : List Char) :
    ∀ p ∈ (rolesBefore following .start x).head?, p.2 ≠ .continues := by
  intro p first
  cases x with
  | nil => cases first
  | cons c x =>
    cases first
    exact ReadState.read_fresh c _ (by decide) (by simp [ReadState.start])

theorem declaresNothing_append {xs ys : List (TokenKind × List Char)} (first : declaresNothing xs)
    (last : declaresNothing ys) : declaresNothing (xs ++ ys) := by
  induction xs with
  | nil => exact last
  | cons x xs ih =>
    obtain ⟨kind, word⟩ := x
    simp only [declaresNothing, Bool.and_eq_true, Bool.or_eq_true] at first
    simp only [List.cons_append, declaresNothing, Bool.and_eq_true, Bool.or_eq_true]
    refine ⟨?_, ih first.2⟩
    rcases first.1 with other | unnamed
    · exact Or.inl other
    · cases xs with
      | nil => simp at unnamed
      | cons y xs =>
        cases xs with
        | nil => simp at unnamed
        | cons z xs => exact Or.inr unnamed

theorem Inert.append {x y : List Char} (first : Inert x) (last : Inert y) : Inert (x ++ y) := by
  intro following
  obtain ⟨state, nothing⟩ := first (y.head?.or following)
  obtain ⟨state', nothing'⟩ := last following
  constructor
  · rw [ReadState.after_append, state, state']
  · rw [rolesBefore_append, state, contents_append _ _ (rolesBefore_start_fresh following y)]
    exact declaresNothing_append nothing nothing'

theorem ReadState.read_newline (s : ReadState) (next : Option Char) :
    s.read '\n' next = s.read '\n' none := by
  unfold ReadState.read readBetween
  cases s.region <;> simp

theorem rolesBefore_breaks {x : List Char} (whole : ∀ c ∈ x.getLast?, c = '\n')
    (s : ReadState) (next next' : Option Char) :
    rolesBefore next s x = rolesBefore next' s x := by
  induction x generalizing s with
  | nil => rfl
  | cons c x ih =>
    cases x with
    | nil =>
      have broken : c = '\n' := whole c rfl
      subst broken
      simp only [rolesBefore, List.head?_nil, Option.none_or, ReadState.read_newline _ next,
        ReadState.read_newline _ next']
    | cons d x =>
      have later := ih (by rwa [List.getLast?_cons_cons] at whole) (s.next c (some d))
      rw [rolesBefore, List.head?_cons, Option.some_or, later]
      rfl

theorem inert_line {line : List Char} (state : ReadState.start.after (line ++ ['\n']) none = .start)
    (nothing : declaresNothing (contents (roles .start (line ++ ['\n'])))) :
    Inert (line ++ ['\n']) := by
  intro following
  constructor
  · rw [ReadState.after_append] at state ⊢
    simp only [ReadState.after, ReadState.next, List.head?_cons, List.head?_nil, Option.or_none,
      Option.some_or, Option.none_or, ReadState.read_newline _ following] at state ⊢
    exact state
  · rw [← rolesBefore_end, rolesBefore_append] at nothing
    rw [rolesBefore_append]
    simp only [rolesBefore, List.head?_cons, List.head?_nil, Option.or_none, Option.some_or,
      Option.none_or, ReadState.read_newline _ following] at nothing ⊢
    exact nothing

theorem unlines_toList (lines : List String) :
    (unlines lines).toList = lines.flatMap fun line => line.toList ++ ['\n'] := by
  unfold unlines
  rw [String.toList_join]
  induction lines with
  | nil => rfl
  | cons line lines ih => simp_all

/-- A line that is inert with the line break after it. Its characters are given apart, because a
    string is slow to take to pieces. -/
def InertLine (line : String) : Prop :=
  ∃ text, line = String.ofList text ∧ ReadState.start.after (text ++ ['\n']) none = .start ∧
    declaresNothing (contents (roles .start (text ++ ['\n'])))

theorem inert_unlines {lines : List String} (each : ∀ line ∈ lines, InertLine line) :
    Inert (unlines lines).toList := by
  rw [unlines_toList]
  induction lines with
  | nil => exact fun _ => ⟨rfl, rfl⟩
  | cons line lines ih =>
    obtain ⟨text, same, state, nothing⟩ := each line List.mem_cons_self
    rw [List.flatMap_cons, same, String.toList_ofList]
    exact (inert_line state nothing).append
      (ih fun other listed => each other (List.mem_cons_of_mem line listed))

theorem preamble_lines :
    ∃ lines, preamble = unlines lines ∧ parameterMark ∈ lines ∧ ∀ line ∈ lines, InertLine line := by
  refine ⟨_, rfl, ?_, ?_⟩
  · repeat first | exact List.mem_cons_self | apply List.mem_cons_of_mem
  · simp only [List.forall_mem_cons, List.not_mem_nil, false_imp_iff, implies_true, and_true]
    and_intros
    all_goals exact ⟨_, rfl, by decide⟩

def header : List Char := preamble.toList ++ ['\n']

theorem assemble_eq (document : List Char) : assemble document = header ++ body document := by
  rw [assemble, header, List.append_assoc]
  rfl

theorem header_inert : Inert header := by
  obtain ⟨lines, same, _, each⟩ := preamble_lines
  have last : Inert ([] ++ ['\n']) := inert_line (by decide) (by decide)
  rw [header, same]
  exact (inert_unlines each).append last

theorem preamble_begins : ∃ rest, preamble.toList = '#' :: rest := by
  rw [preamble, unlines_toList]
  exact ⟨_, rfl⟩

theorem preamble_mark : ∃ before after, preamble.toList = before ++ parameterMark.toList ++ after := by
  obtain ⟨lines, same, listed, _⟩ := preamble_lines
  obtain ⟨front, back, text⟩ := List.append_of_mem listed
  refine ⟨(unlines front).toList, '\n' :: (unlines back).toList, ?_⟩
  rw [same, text]
  simp [unlines_toList]

/-- After an inert text come the tokens of the rest, moved. -/
theorem Inert.tokens {x : List Char} (inert : Inert x) (y : List Char) :
    tokens (x ++ y) =
      gather 0 (rolesBefore y.head? .start x) ++ (tokens y).map (Token.moved (byteLength x)) := by
  unfold Shader.tokens
  rw [roles_append, (inert y.head?).1, gather_append _ _ _ (roles_start_fresh y),
    map_fst_rolesBefore, Nat.add_comm, gather_moved]

theorem Inert.declarations {x : List Char} (inert : Inert x) (y : List Char) :
    declarations (x ++ y) = (declarations y).map (Declaration.moved (byteLength x)) := by
  rw [Shader.declarations, inert.tokens, collect_declaresNothing _ (inert y.head?).2, collect_moved]
  rfl

theorem declarations_assemble (document : List Char) :
    declarations (assemble document) =
      (declarations (body document)).map (Declaration.moved (byteLength header)) := by
  rw [assemble_eq]
  exact header_inert.declarations (body document)

def WithoutWord (word : List Char) (line : String) : Prop :=
  ∃ text, line = String.ofList text ∧ splitAround? word text = none

theorem splitAround?_unlines {word : List Char} (unbroken : '\n' ∉ word) {lines : List String}
    (each : ∀ line ∈ lines, WithoutWord word line) (rest : List Char) :
    splitAround? word ((unlines lines).toList ++ rest) =
      (splitAround? word rest).map fun cut => ((unlines lines).toList ++ cut.1, cut.2) := by
  rw [unlines_toList]
  induction lines with
  | nil => simp
  | cons line lines ih =>
    obtain ⟨text, same, absent⟩ := each line List.mem_cons_self
    have parts : (line :: lines).flatMap (fun line => line.toList ++ ['\n']) ++ rest =
        text ++ '\n' :: (lines.flatMap (fun line => line.toList ++ ['\n']) ++ rest) := by
      simp [same]
    rw [parts, splitAround?_line unbroken absent,
      ih fun other listed => each other (List.mem_cons_of_mem line listed), Option.map_map]
    congr 1
    funext cut
    simp [same]

theorem unlines_ends (lines : List String) :
    ∀ c ∈ (unlines lines).toList.getLast?, c = '\n' := by
  intro c last
  rw [unlines_toList] at last
  rcases List.eq_nil_or_concat lines with none | ⟨front, line, text⟩
  · rw [none] at last
    cases last
  · rw [text, List.concat_eq_append] at last
    simpa using last.symm

theorem preamble_front :
    ∃ front back, preamble = unlines (front ++ parameterMark :: back) ∧
      ∀ line ∈ front, InertLine line ∧ WithoutWord parameterMark.toList line := by
  obtain ⟨lines, place, same, mark, each⟩ : ∃ lines place, preamble = unlines lines ∧
      lines = lines.take place ++ parameterMark :: lines.drop (place + 1) ∧
      ∀ line ∈ lines.take place, InertLine line ∧ WithoutWord parameterMark.toList line := by
    refine ⟨_, 29, rfl, rfl, ?_⟩
    simp only [List.take_succ_cons, List.take_zero, List.forall_mem_cons, List.not_mem_nil,
      false_imp_iff, implies_true, and_true]
    and_intros
    all_goals exact ⟨_, rfl, by decide⟩
  exact ⟨_, _, mark ▸ same, each⟩

/-- A program made of a document is parted at the line of its mark, with inert lines before it. -/
theorem assemble_parted :
    ∃ before after, Inert before ∧ (∀ c ∈ before.getLast?, c = '\n') ∧
      header = before ++ parameterMark.toList ++ '\n' :: after ∧
      ∀ document, splitAround? parameterMark.toList (assemble document) =
        some (before, '\n' :: after ++ body document) := by
  obtain ⟨front, back, same, each⟩ := preamble_front
  have text : header = (unlines front).toList ++ parameterMark.toList ++
      '\n' :: ((unlines back).toList ++ ['\n']) := by
    rw [header, same]
    simp [unlines_toList]
  refine ⟨(unlines front).toList, _, inert_unlines fun line listed => (each line listed).1,
    unlines_ends front, text, ?_⟩
  intro document
  rw [assemble_eq, text, List.append_assoc, List.append_assoc,
    splitAround?_unlines (by decide) fun line listed => (each line listed).2, splitAround?_here,
    Option.map_some, List.append_nil]

end ShaderBench.Shader
