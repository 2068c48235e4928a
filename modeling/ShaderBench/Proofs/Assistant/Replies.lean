import ShaderBench.Assistant.Requests
import ShaderBench.Proofs.Text.Runs
/-
What is taken for a document: a reply without its fences and without the blanks around what is
left, if anything is left. Fences are taken from the left, and the pieces of text between them never
join to a further one.
-/
namespace ShaderBench.Assistant
open Text

def fence : List Char := ['`', '`', '`']

def Names (language after : List Char) : Prop :=
  language ∈ languages ∨ language = [] ∧ ∀ l ∈ languages, ¬ l <+: after

/-- The first text without its fences is the second. Before a fence lies no other, and the next one
    is looked for behind it. -/
inductive Unfenced : List Char → List Char → Prop
  | plain {s : List Char} (none : ¬ fence <:+: s) : Unfenced s s
  | fence {before language after kept : List Char} (first : ¬ fence <:+: before ++ ['`', '`'])
      (names : Names language after) (rest : Unfenced after kept) :
      Unfenced (before ++ fence ++ language ++ after) (before ++ kept)

section Languages

theorem languages_apart : ∀ l ∈ languages, ∀ m ∈ languages, l.head? = m.head? → l = m := by decide

theorem languages_filled : ∀ l ∈ languages, l ≠ [] := by decide

theorem language_unique {l m s : List Char} (listed : l ∈ languages) (listed' : m ∈ languages)
    (begins : l <+: s) (begins' : m <+: s) : l = m := by
  have first : ∀ k ∈ languages, k <+: s → k.head? = s.head? := by
    rintro k member ⟨rest, rfl⟩
    rw [List.head?_append_of_ne_nil k (languages_filled k member)]
  apply languages_apart l listed m listed'
  rw [first l listed begins, first m listed' begins']

theorem begins_of_find? {s l : List Char}
    (found : languages.find? (fun l => l.isPrefixOf s) = some l) : l ∈ languages ∧ l <+: s := by
  have begins := List.find?_some found
  exact ⟨List.mem_of_find?_eq_some found, List.isPrefixOf_iff_prefix.mp begins⟩

theorem not_begins_of_find? {s l : List Char}
    (none : languages.find? (fun l => l.isPrefixOf s) = none) (listed : l ∈ languages) :
    ¬ l <+: s := by
  intro begins
  exact List.find?_eq_none.mp none l listed (List.isPrefixOf_iff_prefix.mpr begins)

theorem dropLanguage_names {language after : List Char} (names : Names language after) :
    dropLanguage (language ++ after) = after := by
  unfold dropLanguage
  split
  · rename_i l found
    obtain ⟨listed, begins⟩ := begins_of_find? found
    rcases names with named | ⟨empty, free⟩
    · rw [language_unique listed named begins (List.prefix_append language after),
        List.drop_left]
    · rw [empty] at begins
      exact absurd begins (free l listed)
  · rename_i none
    rcases names with named | ⟨empty, _⟩
    · exact absurd (List.prefix_append language after) (not_begins_of_find? none named)
    · rw [empty, List.nil_append]

theorem names_dropLanguage (s : List Char) :
    ∃ language, s = language ++ dropLanguage s ∧ Names language (dropLanguage s) := by
  unfold dropLanguage
  split
  · rename_i l found
    obtain ⟨listed, begins⟩ := begins_of_find? found
    exact ⟨l, (List.prefix_iff_eq_append.mp begins).symm, .inl listed⟩
  · rename_i none
    exact ⟨[], rfl, .inr ⟨rfl, fun l listed => not_begins_of_find? none listed⟩⟩

end Languages

/- What is left is told by the places of the fences. -/

theorem dropFences_fence (s : List Char) :
    dropFences (fence ++ s) = dropFences (dropLanguage s) := by
  rw [fence, List.cons_append, List.cons_append, List.cons_append, List.nil_append, dropFences]

theorem dropFences_cons {c : Char} {s : List Char} (none : ¬ fence <+: c :: s) :
    dropFences (c :: s) = c :: dropFences s := by
  rw [dropFences]
  rintro rest rfl rfl
  exact none ⟨rest, rfl⟩

theorem not_fenced {c : Char} {s : List Char}
    (apart : ∀ rest, c = '`' → s = '`' :: '`' :: rest → False) : ¬ fence <+: c :: s := by
  rintro ⟨rest, same⟩
  cases same
  exact apart rest rfl rfl

theorem dropFences_plain {s : List Char} (none : ¬ fence <:+: s) : dropFences s = s := by
  induction s with
  | nil => rw [dropFences]
  | cons c s ih =>
    rw [List.infix_cons_iff, not_or] at none
    rw [dropFences_cons none.1, ih none.2]

theorem dropFences_before {before : List Char} (first : ¬ fence <:+: before ++ ['`', '`'])
    (s : List Char) : dropFences (before ++ fence ++ s) = before ++ dropFences (dropLanguage s) := by
  induction before with
  | nil => exact dropFences_fence s
  | cons c before ih =>
    rw [List.cons_append, List.infix_cons_iff, not_or] at first
    have apart : ¬ fence <+: c :: (before ++ fence ++ s) := by
      intro begins
      -- A fence has three characters, which the two that are kept in view go up to.
      refine first.1 (List.prefix_of_prefix_length_le begins ⟨'`' :: s, ?_⟩ ?_)
      · simp [fence]
      · simp [fence]
    rw [List.cons_append, List.cons_append, dropFences_cons apart, ih first.2]
    rfl

theorem unfenced_dropFences (s : List Char) : Unfenced s (dropFences s) := by
  fun_induction dropFences s with
  | case1 rest ih =>
    obtain ⟨language, text, names⟩ := names_dropLanguage rest
    have none : ¬ fence <:+: [] ++ ['`', '`'] := by decide
    have unfenced := Unfenced.fence none names ih
    rwa [List.append_assoc, ← text] at unfenced
  | case2 c rest apart ih =>
    have none := not_fenced apart
    generalize dropFences rest = kept at ih ⊢
    cases ih with
    | plain free => exact .plain (by simp [List.infix_cons_iff, none, free])
    | @fence before language after kept first names rest =>
      have first' : ¬ fence <:+: (c :: before) ++ ['`', '`'] := by
        rw [List.cons_append, List.infix_cons_iff, not_or]
        refine ⟨fun begins => none (begins.trans ⟨'`' :: (language ++ after), ?_⟩), first⟩
        simp [Assistant.fence]
      exact .fence first' names rest
  | case3 => exact .plain (by decide)

theorem unfenced_iff {s kept : List Char} : Unfenced s kept ↔ dropFences s = kept := by
  constructor
  · intro unfenced
    induction unfenced with
    | plain none => exact dropFences_plain none
    | fence first names _ ih =>
      rw [List.append_assoc, dropFences_before first, dropLanguage_names names, ih]
  · intro same
    rw [← same]
    exact unfenced_dropFences s

/-- What is left begins with no more backticks than a text does that begins with no fence. -/
theorem backticks_before {n : Nat} {s : List Char} (none : ¬ fence <+: s)
    (begins : List.replicate n '`' <+: dropFences s) : List.replicate n '`' <+: s := by
  induction n generalizing s with
  | zero => exact List.nil_prefix
  | succ n ih =>
    cases s with
    | nil => simp [dropFences] at begins
    | cons c s =>
      rw [dropFences_cons none, List.replicate_succ, List.cons_prefix_cons] at begins
      obtain ⟨here, later⟩ := begins
      subst here
      refine List.cons_prefix_cons.mpr ⟨rfl, ih ?_ later⟩
      -- A fence behind a backtick begins at this one.
      rintro ⟨after, rfl⟩
      exact none ⟨'`' :: after, rfl⟩

theorem dropFences_free (s : List Char) : ¬ fence <:+: dropFences s := by
  fun_induction dropFences s with
  | case1 rest ih => exact ih
  | case2 c rest apart ih =>
    have none : ¬ fence <+: c :: rest := not_fenced apart
    rw [List.infix_cons_iff, not_or, ← dropFences_cons none]
    exact ⟨fun begins => none (backticks_before (n := 3) none begins), ih⟩
  | case3 => decide

/-- Code as it is taken for a document: something is left, and nothing more can be taken from it. -/
structure Clean (document : List Char) : Prop where
  filled : document ≠ []
  first : ∀ c ∈ document.head?, isBlank c = false
  last : ∀ c ∈ document.getLast?, isBlank c = false
  free : ¬ fence <:+: document
  fixed : code document = document

theorem clean_code {reply : List Char} (filled : code reply ≠ []) : Clean (code reply) := by
  obtain ⟨⟨before, after, text, _⟩, first, last⟩ := trimmed_trim (dropFences reply)
  have free : ¬ fence <:+: code reply := by
    intro inside
    refine dropFences_free reply (inside.trans ?_)
    rw [text]
    exact ⟨before, after, rfl⟩
  refine ⟨filled, first, last, free, ?_⟩
  rw [code, dropFences_plain free]
  exact trim_trim (dropFences reply)

def Leaves (reply : Reply) (kept : List Char) : Prop :=
  ∃ text, reply = .ok text ∧ Unfenced text.toList kept

theorem leaves_ok {text : String} {kept : List Char} :
    Leaves (.ok text) kept ↔ dropFences text.toList = kept := by
  constructor
  · rintro ⟨_, same, unfenced⟩
    cases same
    exact unfenced_iff.mp unfenced
  · intro same
    exact ⟨text, rfl, unfenced_iff.mpr same⟩

theorem not_leaves_error {failure : Failure} {kept : List Char} :
    ¬ Leaves (.error failure) kept := by
  rintro ⟨_, same, _⟩
  cases same

theorem documentOf_text (text : String) :
    documentOf (.ok text) =
      if code text.toList = [] then .error .empty else .ok (String.ofList (code text.toList)) := by
  simp only [← List.isEmpty_iff]
  rfl

theorem code_eq_nil {reply : List Char} : code reply = [] ↔ ∀ c ∈ dropFences reply, isBlank c :=
  trim_eq_nil

theorem documentOf_ok {reply : Reply} {document : String} :
    documentOf reply = .ok document ↔
      ∃ kept, Leaves reply kept ∧ (∃ c ∈ kept, isBlank c = false) ∧
        Trimmed kept document.toList := by
  cases reply with
  | error failure =>
    constructor
    · intro made
      cases made
    · rintro ⟨kept, leaves, _⟩
      exact absurd leaves not_leaves_error
  | ok text =>
    have left : (∃ c ∈ dropFences text.toList, isBlank c = false) ↔ code text.toList ≠ [] := by
      simp [code_eq_nil]
    simp only [documentOf_text, leaves_ok, exists_eq_left', left, trimmed_iff]
    change _ ↔ code text.toList ≠ [] ∧ code text.toList = document.toList
    by_cases empty : code text.toList = []
    · simp [empty]
    · rw [if_neg empty, Except.ok.injEq, and_iff_right empty]
      constructor
      · intro same
        rw [← same, String.toList_ofList]
      · intro same
        rw [same, String.ofList_toList]

theorem documentOf_error {reply : Reply} {failure : Failure} :
    documentOf reply = .error failure ↔ reply = .error failure ∨
      failure = .empty ∧ ∃ kept, Leaves reply kept ∧ ∀ c ∈ kept, isBlank c := by
  cases reply with
  | error other =>
    constructor
    · intro made
      exact .inl made
    · rintro (same | ⟨_, kept, leaves, _⟩)
      · exact same
      · exact absurd leaves not_leaves_error
  | ok text =>
    simp only [documentOf_text, leaves_ok, exists_eq_left', ← code_eq_nil, reduceCtorEq, false_or]
    by_cases empty : code text.toList = []
    · simp [empty, eq_comm]
    · simp [empty]

theorem explanationOf_filled (reply : Reply) :
    ∃ c ∈ (explanationOf reply).toList, isBlank c = false := by
  have standing : ∃ c ∈ noExplanation.toList, isBlank c = false := by
    refine ⟨'C', ?_, by decide⟩
    simp [noExplanation]
  cases reply with
  | error failure => exact standing
  | ok text =>
    simp only [explanationOf]
    split
    · exact standing
    · rename_i filled
      rw [String.toList_ofList]
      cases kept : trim text.toList with
      | nil => simp [kept] at filled
      | cons c rest =>
        have solid := (trimmed_trim text.toList).first c (by rw [kept]; rfl)
        exact ⟨c, List.mem_cons_self, solid⟩

/-- Only clean code is taken from a reply, and an explanation can always be shown. A request for a
    document is answered with one exactly if the reply is a text and something is left of it without
    its fences and blanks; otherwise with the failure of the reply, or because nothing is left. -/
theorem only_clean_code (reply : Reply) :
    (∀ prompt current, ∃ result,
      (Request.generate prompt current).answer reply = .generated result ∧
      (∀ document, result = .ok document ↔
        (∃ kept, Leaves reply kept ∧ (∃ c ∈ kept, isBlank c = false) ∧
          Trimmed kept document.toList) ∧ Clean document.toList) ∧
      ((∃ document, result = .ok document) ↔
        ∃ kept, Leaves reply kept ∧ ∃ c ∈ kept, isBlank c = false) ∧
      ∀ failure, result = .error failure ↔ reply = .error failure ∨
        failure = .empty ∧ ∃ kept, Leaves reply kept ∧ ∀ c ∈ kept, isBlank c) ∧
    ∀ document problem, ∃ text,
      (Request.explain document problem).answer reply = .explained text ∧
      ∃ c ∈ text.toList, isBlank c = false := by
  refine ⟨fun prompt current => ⟨documentOf reply, rfl, ?_, ?_, fun failure => documentOf_error⟩,
    fun document problem => ⟨explanationOf reply, rfl, explanationOf_filled reply⟩⟩
  · intro document
    rw [documentOf_ok, iff_self_and]
    rintro ⟨kept, ⟨text, _, unfenced⟩, ⟨c, member, solid⟩, trimmed⟩
    rw [unfenced_iff] at unfenced
    rw [trimmed_iff, ← unfenced] at trimmed
    rw [← trimmed]
    refine clean_code fun empty => ?_
    rw [code_eq_nil, unfenced] at empty
    rw [empty c member] at solid
    cases solid
  · constructor
    · rintro ⟨document, made⟩
      obtain ⟨kept, leaves, solid, _⟩ := documentOf_ok.mp made
      exact ⟨kept, leaves, solid⟩
    · rintro ⟨kept, leaves, solid⟩
      refine ⟨String.ofList (trim kept), documentOf_ok.mpr ⟨kept, leaves, solid, ?_⟩⟩
      rw [String.toList_ofList]
      exact trimmed_trim kept

end ShaderBench.Assistant
