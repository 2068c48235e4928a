import ShaderBench.Proofs.Shader.Regions
/-
The tokens of the parts that text is put together from: names, numbers, marks and the space between
them, wherever a token can begin.
-/
namespace ShaderBench.Shader
open Text

/-- A part that begins with no rest of a token and holds the same tokens in all places where it is
    read in a region of the first kind. It ends in a region of the last kind. -/
def Reads (first : Region → Prop) (x : List Char) (cs : List (TokenKind × List Char))
    (last : Region → Prop) : Prop :=
  ∀ s following, first s.region →
    (∀ p ∈ (rolesBefore following s x).head?, p.2 ≠ .continues) ∧
      contents (rolesBefore following s x) = cs ∧ last (s.after x following).region

def Active (r : Region) : Prop := r.active

def Between (r : Region) : Prop := ∃ lineStart, r = .between lineStart

theorem Between.active {r : Region} (between : Between r) : Active r := by
  obtain ⟨lineStart, same⟩ := between
  rw [Active, same]
  rfl

theorem word_active {r : Region} (word : r = .word) : Active r := by
  rw [Active, word]
  rfl

theorem Reads.mono {first first' last last' : Region → Prop} {x : List Char}
    {cs : List (TokenKind × List Char)} (reads : Reads first x cs last)
    (begins : ∀ r, first' r → first r) (ends : ∀ r, last r → last' r) : Reads first' x cs last' := by
  intro s following start
  obtain ⟨fresh, tokens, region⟩ := reads s following (begins _ start)
  exact ⟨fresh, tokens, ends _ region⟩

theorem Reads.append {first middle last : Region → Prop} {x y : List Char}
    {cs ds : List (TokenKind × List Char)} (front : Reads first x cs middle)
    (back : Reads middle y ds last) : Reads first (x ++ y) (cs ++ ds) last := by
  intro s following start
  obtain ⟨fresh, tokens, region⟩ := front s (y.head?.or following) start
  obtain ⟨fresh', tokens', region'⟩ := back (s.after x (y.head?.or following)) following region
  refine ⟨?_, ?_, ?_⟩
  · rw [rolesBefore_append]
    cases x with
    | nil => exact fresh'
    | cons c x => exact fresh
  · rw [rolesBefore_append, contents_append _ _ fresh', tokens, tokens']
  · rw [ReadState.after_append]
    exact region'

theorem reads_nil (first : Region → Prop) : Reads first [] [] first := by
  intro s following start
  refine ⟨?_, rfl, start⟩
  intro p listed
  cases listed

theorem reads_token {first inside : Region → Prop} {kind : TokenKind} {c : Char} {w : List Char}
    (opens : ∀ (s : ReadState) next, first s.region →
      (s.read c next).2 = .opens kind ∧ inside (s.read c next).1)
    (goes : ∀ d ∈ w, ∀ (s : ReadState) next, inside s.region →
      (s.read d next).2 = .continues ∧ inside (s.read d next).1) :
    Reads first (c :: w) [(kind, c :: w)] inside := by
  have rest : ∀ (s : ReadState) following, inside s.region →
      (∀ p ∈ rolesBefore following s w, p.2 = .continues) ∧ inside (s.after w following).region := by
    induction w with
    | nil =>
      intro s following start
      refine ⟨?_, start⟩
      intro p listed
      cases listed
    | cons d w ih =>
      intro s following start
      obtain ⟨role, region⟩ := goes d List.mem_cons_self s (w.head?.or following) start
      obtain ⟨roles, last⟩ := ih (fun e member => goes e (List.mem_cons_of_mem d member))
        (s.next d (w.head?.or following)) following region
      refine ⟨?_, last⟩
      intro p listed
      rcases List.mem_cons.mp listed with here | later
      · rw [here]
        exact role
      · exact roles p later
  intro s following start
  obtain ⟨role, region⟩ := opens s (w.head?.or following) start
  obtain ⟨roles, last⟩ := rest (s.next c (w.head?.or following)) following region
  refine ⟨?_, ?_, last⟩
  · intro p listed
    cases listed
    rw [role]
    simp
  · have whole : (rolesBefore following (s.next c (w.head?.or following)) w).takeWhile
        (·.2 = .continues) = rolesBefore following (s.next c (w.head?.or following)) w :=
      List.takeWhile_eq_self_iff.mpr fun p listed => by simp [roles p listed]
    have none : ∀ rs : List (Char × Role), (∀ p ∈ rs, p.2 = .continues) → contents rs = [] := by
      intro rs
      induction rs with
      | nil => exact fun _ => rfl
      | cons p rs ih =>
        intro all
        obtain ⟨d, role⟩ := p
        have here : role = .continues := all (d, role) List.mem_cons_self
        rw [here, contents_continues]
        exact ih fun q listed => all q (List.mem_cons_of_mem _ listed)
    rw [rolesBefore, role, contents_opens, whole, map_fst_rolesBefore, none _ roles]

theorem reads_space {c : Char} (space : isSpace c) : Reads Active [c] [] Between := by
  intro s following active
  obtain ⟨lineStart, read⟩ := read_space space active following
  refine ⟨?_, ?_, lineStart, ?_⟩
  · intro p listed
    simp only [rolesBefore, List.head?_nil, Option.none_or, read, List.head?_cons, Option.mem_def,
      Option.some.injEq] at listed
    rw [← listed]
    simp
  · simp [rolesBefore, read, contents, gather]
  · simp [ReadState.after, ReadState.next, read]

theorem reads_gap {x : List Char} (some : x ≠ []) (space : ∀ c ∈ x, isSpace c) :
    Reads Active x [] Between := by
  induction x with
  | nil => exact absurd rfl some
  | cons c x ih =>
    have here := reads_space (space c List.mem_cons_self)
    cases x with
    | nil => exact here
    | cons d x =>
      have there := ih (by simp) fun e member => space e (List.mem_cons_of_mem c member)
      exact here.append (there.mono (fun _ => Between.active) fun _ between => between)

theorem reads_spaces {x : List Char} (space : ∀ c ∈ x, isSpace c) : Reads Active x [] Active := by
  cases x with
  | nil => exact reads_nil Active
  | cons c x => exact (reads_gap (by simp) space).mono (fun _ active => active) fun _ => Between.active

theorem reads_spaces_between {x : List Char} (space : ∀ c ∈ x, isSpace c) :
    Reads Between x [] Between := by
  cases x with
  | nil => exact reads_nil Between
  | cons c x => exact (reads_gap (by simp) space).mono (fun _ => Between.active) fun _ between => between

theorem reads_mark {c : Char} (mark : isMark c) : Reads Active [c] [(.punct, [c])] Between := by
  refine reads_token ?_ ?_
  · intro s next active
    rw [read_mark mark active]
    exact ⟨rfl, false, rfl⟩
  · intro d listed
    cases listed

theorem name_other {c : Char} (name : continuesName c) :
    c ≠ '\n' ∧ isSpacing c = false ∧ c ≠ '#' ∧ c ≠ '/' ∧ c ≠ '"' := by
  refine ⟨?_, ?_, ?_, ?_, ?_⟩
  · rintro rfl
    exact absurd name (by decide)
  · by_contra spacing
    simp only [isSpacing, Bool.not_eq_false, Bool.or_eq_true, decide_eq_true_eq] at spacing
    rcases spacing with ((blank | tab) | feed) | ret
    all_goals
      subst c
      exact absurd name (by decide)
  · rintro rfl
    exact absurd name (by decide)
  · rintro rfl
    exact absurd name (by decide)
  · rintro rfl
    exact absurd name (by decide)

theorem readBetween_starts {c : Char} (starts : startsName c) (lineStart : Bool)
    (next : Option Char) : readBetween lineStart c next = (.word, .opens .ident) := by
  obtain ⟨newline, spacing, hash, slash, quote⟩ := name_other (continuesName_of_startsName starts)
  simp [readBetween, newline, spacing, hash, slash, quote, starts]

theorem readBetween_digit {c : Char} (name : continuesName c) (other : startsName c = false)
    (lineStart : Bool) (next : Option Char) :
    readBetween lineStart c next = (.number false, .opens .number) := by
  have digit : c.isDigit := by
    simp only [startsName, continuesName, Char.isAlphanum, Bool.or_eq_true,
      Bool.or_eq_false_iff] at name other
    simp_all
  obtain ⟨newline, spacing, hash, slash, quote⟩ := name_other name
  simp [readBetween, newline, spacing, hash, slash, quote, other, digit]

theorem reads_word {c : Char} {w : List Char} (starts : startsName c)
    (goes : ∀ d ∈ w, continuesName d) :
    Reads Between (c :: w) [(.ident, c :: w)] (· = .word) := by
  refine reads_token ?_ ?_
  · rintro s next ⟨lineStart, region⟩
    have read : s.read c next = (.word, .opens .ident) := by
      simp only [ReadState.read, region]
      exact readBetween_starts starts lineStart next
    rw [read]
    exact ⟨rfl, rfl⟩
  · intro d member s next region
    simp [ReadState.read, region, goes d member]

theorem reads_zero {w : List Char} (goes : ∀ d ∈ w, d.isAlphanum || d = '.') :
    Reads Between ('0' :: w) [(.number, '0' :: w)] Active := by
  have number : Reads Between ('0' :: w) [(.number, '0' :: w)]
      (fun r => ∃ afterExponent, r = .number afterExponent) := by
    refine reads_token ?_ ?_
    · rintro s next ⟨lineStart, region⟩
      have read : s.read '0' next = (.number false, .opens .number) := by
        simp only [ReadState.read, region]
        cases lineStart <;> rfl
      rw [read]
      exact ⟨rfl, false, rfl⟩
    · rintro d member s next ⟨afterExponent, region⟩
      have on : continuesNumber afterExponent s.run d := by
        have letter := goes d member
        simp only [Bool.or_eq_true, decide_eq_true_eq] at letter
        simp only [continuesNumber, Bool.or_eq_true, decide_eq_true_eq]
        exact Or.inl letter
      simp only [ReadState.read, region, on, if_true]
      exact ⟨trivial, _, rfl⟩
  refine number.mono (fun _ between => between) ?_
  rintro r ⟨afterExponent, same⟩
  rw [Active, same]
  rfl

end ShaderBench.Shader
