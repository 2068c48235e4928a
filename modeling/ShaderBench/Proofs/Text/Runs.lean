import Mathlib.Data.List.DropRight
import Mathlib.Data.List.TakeWhile
import ShaderBench.Text.Word
/-
Runs of characters that satisfy a test: where a text is cut behind one, and what is left of a text
without the blanks at its ends.
-/
namespace ShaderBench.Text

theorem cut_unique {p : Char → Bool} {a b x y : List Char} (all : ∀ c ∈ a, p c)
    (all' : ∀ c ∈ b, p c) (stops : ∀ c ∈ x.head?, p c = false)
    (stops' : ∀ c ∈ y.head?, p c = false) (same : a ++ x = b ++ y) : a = b ∧ x = y := by
  induction a generalizing b with
  | nil =>
    cases b with
    | nil => exact ⟨rfl, same⟩
    | cons c b =>
      have holds := all' c List.mem_cons_self
      have fails := stops c (by rw [List.nil_append] at same; rw [same]; rfl)
      rw [fails] at holds
      cases holds
  | cons c a ih =>
    cases b with
    | nil =>
      have holds := all c List.mem_cons_self
      have fails := stops' c (by rw [List.nil_append] at same; rw [← same]; rfl)
      rw [fails] at holds
      cases holds
    | cons d b =>
      simp only [List.cons_append, List.cons.injEq] at same
      obtain ⟨first, rest⟩ := same
      subst first
      obtain ⟨text, after⟩ := ih (fun e member => all e (List.mem_cons_of_mem c member))
        (fun e member => all' e (List.mem_cons_of_mem c member)) rest
      exact ⟨by rw [text], after⟩

theorem dropWhile_append_stop {p : Char → Bool} {a x : List Char} (all : ∀ c ∈ a, p c)
    (stops : ∀ c ∈ x.head?, p c = false) : (a ++ x).dropWhile p = x := by
  rw [List.dropWhile_append_of_pos all]
  cases x with
  | nil => rfl
  | cons c x => exact List.dropWhile_cons_of_neg (by simp [stops c rfl])

theorem takeWhile_append_stop {p : Char → Bool} {a x : List Char} (all : ∀ c ∈ a, p c)
    (stops : ∀ c ∈ x.head?, p c = false) : (a ++ x).takeWhile p = a := by
  rw [List.takeWhile_append_of_pos all]
  cases x with
  | nil => simp
  | cons c x => rw [List.takeWhile_cons_of_neg (by simp [stops c rfl]), List.append_nil]

theorem dropWhile_stops (p : Char → Bool) (s : List Char) :
    ∀ c ∈ (s.dropWhile p).head?, p c = false := by
  intro c first
  have stop := List.head?_dropWhile_not p s
  rw [Option.mem_def] at first
  simpa [first] using stop

theorem takeWhile_all (p : Char → Bool) (s : List Char) : ∀ c ∈ s.takeWhile p, p c := by
  intro c taken
  have holds := List.mem_takeWhile_imp taken
  exact holds

/-- A text between blanks, with no blank at its own ends. -/
structure Trimmed (s kept : List Char) : Prop where
  between : ∃ before after, s = before ++ kept ++ after ∧
    (∀ c ∈ before, isBlank c) ∧ ∀ c ∈ after, isBlank c
  first : ∀ c ∈ kept.head?, isBlank c = false
  last : ∀ c ∈ kept.getLast?, isBlank c = false

theorem trimEnd_append_stop {kept after : List Char} (blank : ∀ c ∈ after, isBlank c)
    (stops : ∀ c ∈ kept.getLast?, isBlank c = false) : trimEnd (kept ++ after) = kept := by
  rw [trimEnd, List.reverse_append, dropWhile_append_stop, List.reverse_reverse]
  · simpa using blank
  · simpa using stops

theorem trimEnd_stops (s : List Char) : ∀ c ∈ (trimEnd s).getLast?, isBlank c = false := by
  rw [trimEnd, List.getLast?_reverse]
  exact dropWhile_stops isBlank s.reverse

theorem trimEnd_append (s : List Char) : trimEnd s ++ s.rtakeWhile isBlank = s :=
  List.rdropWhile_append_rtakeWhile

theorem trimmed_trim (s : List Char) : Trimmed s (trim s) := by
  have start : s.takeWhile isBlank ++ trimStart s = s := List.takeWhile_append_dropWhile
  refine ⟨⟨s.takeWhile isBlank, (trimStart s).rtakeWhile isBlank, ?_, ?_, ?_⟩, ?_, ?_⟩
  · rw [trim, List.append_assoc, trimEnd_append, start]
  · exact takeWhile_all isBlank s
  · intro c taken
    exact List.mem_rtakeWhile_imp taken
  · -- The first character that is kept is the first one behind the blanks at the start.
    intro c first
    apply dropWhile_stops isBlank s c
    have parts := trimEnd_append (trimStart s)
    change c ∈ (trimStart s).head?
    rw [← parts, List.head?_append]
    rw [trim] at first
    rw [first]
    rfl
  · exact trimEnd_stops (trimStart s)

theorem trim_eq_nil {s : List Char} : trim s = [] ↔ ∀ c ∈ s, isBlank c := by
  constructor
  · intro none
    obtain ⟨before, after, text, blank, blank'⟩ := (trimmed_trim s).between
    rw [none, List.append_nil] at text
    rw [text]
    exact List.forall_mem_append.mpr ⟨blank, blank'⟩
  · intro blank
    have none : trimStart s = [] := List.dropWhile_eq_nil_iff.mpr blank
    rw [trim, none]
    rfl

theorem trimmed_iff {s kept : List Char} : Trimmed s kept ↔ trim s = kept := by
  constructor
  · rintro ⟨⟨before, after, text, blank, blank'⟩, first, last⟩
    cases kept with
    | nil =>
      rw [trim_eq_nil, text, List.append_nil]
      exact List.forall_mem_append.mpr ⟨blank, blank'⟩
    | cons c kept =>
      have stops : ∀ d ∈ ((c :: kept) ++ after).head?, isBlank d = false := first
      rw [text, trim, trimStart, List.append_assoc, dropWhile_append_stop blank stops,
        trimEnd_append_stop blank' last]
  · intro same
    rw [← same]
    exact trimmed_trim s

theorem trim_trim (s : List Char) : trim (trim s) = trim s := by
  have kept := trimmed_trim s
  exact trimmed_iff.mp ⟨⟨[], [], by simp, by simp, by simp⟩, kept.first, kept.last⟩

end ShaderBench.Text
