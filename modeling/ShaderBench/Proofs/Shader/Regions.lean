import ShaderBench.Proofs.Shader.Reading
/-
The regions that a reader passes through: what a region keeps over ordinary text, and the tokens
that the parts of a declaration hold wherever they are read.
-/
namespace ShaderBench.Shader
open Text

@[grind =] def Region.active : Region → Bool
  | .between _ | .word | .number _ => true
  | .lineComment | .blockOpening | .block _ | .quoted _ | .directive _ => false

@[grind =] def Region.crossesLines : Region → Bool
  | .between _ | .word | .number _ | .blockOpening | .block _ => true
  | .lineComment | .quoted _ | .directive _ => false

@[grind =] def Region.settled : Region → Region
  | .between _ | .word | .number _ => .between false
  | .lineComment => .lineComment
  | .blockOpening | .block _ => .block false
  | .quoted _ => .quoted false
  | .directive _ => .directive .none

@[simp] theorem Region.active_settled (r : Region) : r.settled.active = r.active := by
  cases r <;> rfl

@[simp] theorem Region.crossesLines_settled (r : Region) :
    r.settled.crossesLines = r.crossesLines := by
  cases r <;> rfl

@[simp] theorem Region.settled_settled (r : Region) : r.settled.settled = r.settled := by
  cases r <;> rfl

theorem Region.active_cases (r : Region) (active : r.active) :
    (∃ lineStart, r = .between lineStart) ∨ r = .word ∨ ∃ afterExponent, r = .number afterExponent := by
  cases r with
  | between lineStart => exact Or.inl ⟨lineStart, rfl⟩
  | word => exact Or.inr (Or.inl rfl)
  | number afterExponent => exact Or.inr (Or.inr ⟨afterExponent, rfl⟩)
  | lineComment => cases active
  | blockOpening => cases active
  | block afterStar => cases active
  | quoted escaped => cases active
  | directive continuation => cases active

theorem Region.crossesLines_of_active {r : Region} (active : r.active) : r.crossesLines := by
  rcases r.active_cases active with ⟨lineStart, region⟩ | region | ⟨afterExponent, region⟩
  · rw [region]
    rfl
  · rw [region]
    rfl
  · rw [region]
    rfl

/-- Among tokens a character goes on with the last one, or is read as between them. -/
theorem read_active {s : ReadState} (active : s.region.active) (c : Char) (next : Option Char) :
    s.read c next = readBetween (s.region = .between true) c next ∨
      s.read c next = (.word, .continues) ∧ continuesName c ∨
      ∃ e, s.read c next = (.number (c = 'e' || c = 'E'), .continues) ∧
        continuesNumber e s.run c := by
  rcases s.region.active_cases active with ⟨lineStart, region⟩ | region | ⟨e, region⟩
  · refine Or.inl ?_
    simp only [ReadState.read, region]
    cases lineStart <;> rfl
  · by_cases name : continuesName c
    · exact Or.inr (Or.inl ⟨by simp [ReadState.read, region, name], name⟩)
    · refine Or.inl ?_
      simp only [ReadState.read, region, if_neg name]
      rfl
  · by_cases number : continuesNumber e s.run c
    · exact Or.inr (Or.inr ⟨e, by simp only [ReadState.read, region, if_pos number], number⟩)
    · refine Or.inl ?_
      simp only [ReadState.read, region, if_neg number]
      rfl

theorem read_opening {s : ReadState} (active : s.region.active) {c : Char}
    (mark : c = '/' ∨ c = '"' ∨ c = '#') (next : Option Char) :
    s.read c next = readBetween (s.region = .between true) c next := by
  rcases read_active active c next with between | ⟨_, name⟩ | ⟨e, _, number⟩
  · exact between
  · rcases mark with slash | quote | hash
    all_goals
      subst c
      cases name
  · rcases mark with slash | quote | hash
    all_goals
      subst c
      simp [continuesNumber] at number

/-- A character that begins and ends no comment, no quoted string and no directive by itself. -/
def calm (c : Char) : Bool := c ≠ '/' && c ≠ '#' && c ≠ '"' && c ≠ '\\'

theorem readBetween_settled {lineStart : Bool} {c : Char} (quiet : calm c) (next : Option Char) :
    (readBetween lineStart c next).1.settled = .between false := by
  simp only [calm, Bool.and_eq_true, decide_eq_true_eq] at quiet
  unfold readBetween
  simp only [quiet.1.1.1, quiet.1.1.2, quiet.1.2, decide_false, Bool.false_and, Bool.and_false,
    Bool.false_eq_true, if_false]
  split_ifs <;> rfl

theorem settled_read {s : ReadState} {c : Char} (quiet : calm c)
    (whole : c ≠ '\n' ∨ s.region.crossesLines) (next : Option Char) :
    (s.read c next).1.settled = s.region.settled := by
  have marks := quiet
  simp only [calm, Bool.and_eq_true, decide_eq_true_eq] at marks
  obtain ⟨⟨⟨slash, _⟩, quote⟩, backslash⟩ := marks
  cases region : s.region with
  | between lineStart =>
    simp only [ReadState.read, region]
    exact readBetween_settled quiet next
  | word =>
    simp only [ReadState.read, region]
    split_ifs
    · rfl
    · exact readBetween_settled quiet next
  | number afterExponent =>
    simp only [ReadState.read, region]
    split_ifs
    · rfl
    · exact readBetween_settled quiet next
  | lineComment =>
    have inside : c ≠ '\n' := by simpa [region, Region.crossesLines] using whole
    simp [ReadState.read, region, inside, Region.settled]
  | blockOpening => simp [ReadState.read, region, Region.settled]
  | block afterStar => simp [ReadState.read, region, slash, Region.settled]
  | quoted escaped =>
    have inside : c ≠ '\n' := by simpa [region, Region.crossesLines] using whole
    cases escaped <;> simp [ReadState.read, region, backslash, quote, inside, Region.settled]
  | directive continuation =>
    have inside : c ≠ '\n' := by simpa [region, Region.crossesLines] using whole
    simp only [ReadState.read, region, readDirective, backslash, inside, if_false]
    split_ifs <;> rfl

theorem whole_next {s : ReadState} {c : Char} {x : List Char} (quiet : calm c)
    (whole : '\n' ∉ c :: x ∨ s.region.crossesLines) (next : Option Char) :
    (s.next c next).region.settled = s.region.settled ∧
      ('\n' ∉ x ∨ (s.next c next).region.crossesLines) := by
  rcases whole with unbroken | crosses
  · have here : c ≠ '\n' := fun same => unbroken (by rw [same]; exact List.mem_cons_self)
    exact ⟨settled_read quiet (Or.inl here) next,
      Or.inl fun broken => unbroken (List.mem_cons_of_mem c broken)⟩
  · have settled := settled_read quiet (Or.inr crosses) next
    refine ⟨settled, Or.inr ?_⟩
    rw [← Region.crossesLines_settled, ReadState.next, settled, Region.crossesLines_settled]
    exact crosses

/-- Ordinary text leaves the region as it is, up to what the next semicolon forgets. -/
theorem settled_after {s : ReadState} {x : List Char} (quiet : ∀ c ∈ x, calm c)
    (whole : '\n' ∉ x ∨ s.region.crossesLines) (following : Option Char) :
    (s.after x following).region.settled = s.region.settled := by
  induction x generalizing s with
  | nil => rfl
  | cons c x ih =>
    obtain ⟨settled, later⟩ := whole_next (quiet c List.mem_cons_self) whole (x.head?.or following)
    rw [ReadState.after, ih (fun d member => quiet d (List.mem_cons_of_mem c member)) later]
    exact settled

def isSpace (c : Char) : Bool := isSpacing c || c = '\n'

def isMark (c : Char) : Bool :=
  !isSpace c && !continuesName c && c ≠ '.' && c ≠ '+' && c ≠ '-' && c ≠ '/' && c ≠ '#' && c ≠ '"'

theorem startsName_of_mark {c : Char} (other : continuesName c = false) :
    startsName c = false ∧ c.isDigit = false ∧ c.isAlphanum = false := by
  simp only [continuesName, startsName, Char.isAlphanum, Bool.or_eq_false_iff] at other ⊢
  tauto

theorem readBetween_mark {lineStart : Bool} {c : Char} (mark : isMark c) (next : Option Char) :
    readBetween lineStart c next = (.between false, .opens .punct) := by
  simp only [isMark, isSpace, Bool.and_eq_true, Bool.not_eq_true', Bool.or_eq_false_iff,
    decide_eq_true_eq, decide_eq_false_iff_not] at mark
  obtain ⟨⟨⟨⟨⟨⟨⟨⟨spacing, newline⟩, name⟩, point⟩, plus⟩, minus⟩, slash⟩, hash⟩, quote⟩ := mark
  obtain ⟨starts, digit, _⟩ := startsName_of_mark name
  simp [readBetween, spacing, newline, point, slash, hash, quote, starts, digit]

theorem read_mark {s : ReadState} {c : Char} (mark : isMark c) (active : s.region.active)
    (next : Option Char) : s.read c next = (.between false, .opens .punct) := by
  have parts := mark
  simp only [isMark, Bool.and_eq_true, Bool.not_eq_true', decide_eq_true_eq] at parts
  obtain ⟨⟨⟨⟨⟨⟨⟨_, name⟩, point⟩, plus⟩, minus⟩, _⟩, _⟩, _⟩ := parts
  obtain ⟨_, _, letter⟩ := startsName_of_mark name
  rcases read_active active c next with between | ⟨_, goes⟩ | ⟨e, _, goes⟩
  · rw [between, readBetween_mark mark]
  · rw [name] at goes
    cases goes
  · simp [continuesNumber, letter, point, plus, minus] at goes

theorem read_space {s : ReadState} {c : Char} (space : isSpace c) (active : s.region.active)
    (next : Option Char) : ∃ lineStart, s.read c next = (.between lineStart, .skipped) := by
  have between : ∀ lineStart, ∃ lineStart', readBetween lineStart c next =
      (.between lineStart', .skipped) := by
    intro lineStart
    simp only [isSpace, Bool.or_eq_true, decide_eq_true_eq] at space
    unfold readBetween
    by_cases newline : c = '\n'
    · exact ⟨true, if_pos newline⟩
    · rcases space with spacing | broken
      · exact ⟨lineStart, by rw [if_neg newline, if_pos spacing]⟩
      · exact absurd broken newline
  have plain : continuesName c = false ∧ c.isAlphanum = false ∧ c ≠ '.' ∧ c ≠ '+' ∧ c ≠ '-' := by
    simp only [isSpace, isSpacing, Bool.or_eq_true, decide_eq_true_eq] at space
    rcases space with (((blank | tab) | feed) | ret) | newline
    all_goals
      subst c
      decide
  obtain ⟨name, letter, point, plus, minus⟩ := plain
  rcases read_active active c next with read | ⟨_, goes⟩ | ⟨e, _, goes⟩
  · rw [read]
    exact between _
  · rw [name] at goes
    cases goes
  · simp [continuesNumber, letter, point, plus, minus] at goes

theorem read_inactive {s : ReadState} (inactive : s.region.active = false) (c : Char)
    (next : Option Char) : (s.read c next).2 = .skipped := by
  cases region : s.region with
  | between lineStart => simp [region, Region.active] at inactive
  | word => simp [region, Region.active] at inactive
  | number afterExponent => simp [region, Region.active] at inactive
  | lineComment => simp [ReadState.read, region]
  | blockOpening => simp [ReadState.read, region]
  | block afterStar => simp [ReadState.read, region]
  | quoted escaped => simp [ReadState.read, region]
  | directive continuation => simp [ReadState.read, region]

/-- How a character of a skipped stretch changes the region: it ends the stretch, or is one more
    character of it. -/
inductive Within (c : Char) : Region → Region → Prop where
  | ends (r : Region) : Within c r (.between (c = '\n'))
  | lineComment (inside : c ≠ '\n') : Within c .lineComment .lineComment
  | opening : Within c .blockOpening (.block false)
  | block {afterStar : Bool} (inside : afterStar = false ∨ c ≠ '/') :
      Within c (.block afterStar) (.block (c = '*'))
  | quoted {escaped : Bool} (inside : escaped = true ∨ c ≠ '"' ∧ c ≠ '\n') :
      Within c (.quoted escaped) (.quoted (!escaped && c = '\\'))
  | directive {continuation : Continuation} (inside : c ≠ '\n' ∨ continuation ≠ .none) :
      Within c (.directive continuation) (.directive
        (if c = '\\' then .backslash
         else if c = '\r' && continuation = .backslash then .backslashReturn
         else .none))

theorem read_within {s : ReadState} (inactive : s.region.active = false) (c : Char)
    (next : Option Char) : Within c s.region (s.read c next).1 := by
  have ends : ∀ {r}, r = .between (c = '\n') → Within c s.region r := by
    intro r same
    rw [same]
    exact .ends _
  cases region : s.region with
  | between lineStart => simp [region, Region.active] at inactive
  | word => simp [region, Region.active] at inactive
  | number e => simp [region, Region.active] at inactive
  | lineComment =>
    rw [← region]
    by_cases newline : c = '\n'
    · exact ends (by simp [ReadState.read, region, newline])
    · simpa [ReadState.read, region, newline] using Within.lineComment newline
  | blockOpening => simpa [ReadState.read, region] using Within.opening (c := c)
  | block afterStar =>
    rw [← region]
    by_cases closes : afterStar ∧ c = '/'
    · exact ends (by simp [ReadState.read, region, closes])
    · have inside : afterStar = false ∨ c ≠ '/' := by simpa [imp_iff_not_or] using closes
      simpa [ReadState.read, region, closes] using Within.block inside
  | quoted escaped =>
    rw [← region]
    by_cases inside : escaped = true ∨ c ≠ '"' ∧ c ≠ '\n'
    · have on := Within.quoted inside
      by_cases backslash : c = '\\'
      · cases escaped <;> simpa [ReadState.read, region, backslash] using on
      · rcases inside with escaped | ⟨quote, newline⟩
        · simpa [ReadState.read, region, escaped] using on
        · cases escaped <;> simpa [ReadState.read, region, backslash, quote, newline] using on
    · simp only [not_or, Bool.not_eq_true, not_and_or, not_not] at inside
      obtain ⟨plain, quote | newline⟩ := inside
      · exact ends (by simp [ReadState.read, region, plain, quote])
      · exact ends (by simp [ReadState.read, region, plain, newline])
  | directive continuation =>
    rw [← region]
    by_cases inside : c ≠ '\n' ∨ continuation ≠ .none
    · have on := Within.directive inside
      by_cases newline : c = '\n'
      · cases continuation with
        | none => simp [newline] at inside
        | backslash => simpa [ReadState.read, region, readDirective, newline] using on
        | backslashReturn => simpa [ReadState.read, region, readDirective, newline] using on
      · simpa only [ReadState.read, region, readDirective, if_neg newline, apply_ite Region.directive]
          using on
    · simp only [not_or, not_not] at inside
      exact ends (by simp [ReadState.read, region, readDirective, inside])

theorem next_semicolon (s : ReadState) (next : Option Char) :
    s.next ';' next = ⟨s.region.settled, .empty⟩ := by
  have run : s.run.extend ';' = .empty := rfl
  rw [ReadState.next, run]
  by_cases active : s.region.active
  · rw [read_mark (by decide) active]
    rcases s.region.active_cases active with ⟨lineStart, region⟩ | region | ⟨afterExponent, region⟩
    · rw [region]
      rfl
    · rw [region]
      rfl
    · rw [region]
      rfl
  · cases region : s.region with
    | between lineStart => simp [region, Region.active] at active
    | word => simp [region, Region.active] at active
    | number afterExponent => simp [region, Region.active] at active
    | lineComment => simp [ReadState.read, region, Region.settled]
    | blockOpening => simp [ReadState.read, region, Region.settled]
    | block afterStar => cases afterStar <;> simp [ReadState.read, region, Region.settled]
    | quoted escaped => cases escaped <;> simp [ReadState.read, region, Region.settled]
    | directive continuation => simp [ReadState.read, region, Region.settled, readDirective]

theorem rolesBefore_inactive {s : ReadState} {x : List Char} (quiet : ∀ c ∈ x, calm c)
    (whole : '\n' ∉ x ∨ s.region.crossesLines) (inactive : s.region.active = false)
    (following : Option Char) : ∀ p ∈ rolesBefore following s x, p.2 = .skipped := by
  induction x generalizing s with
  | nil =>
    intro p listed
    cases listed
  | cons c x ih =>
    intro p listed
    obtain ⟨settled, later⟩ := whole_next (quiet c List.mem_cons_self) whole (x.head?.or following)
    rcases List.mem_cons.mp listed with first | behind
    · rw [first]
      exact read_inactive inactive c _
    · refine ih (fun d member => quiet d (List.mem_cons_of_mem c member)) later ?_ p behind
      rw [← Region.active_settled, settled, Region.active_settled]
      exact inactive

theorem contents_of_skipped {rs : List (Char × Role)} (skipped : ∀ p ∈ rs, p.2 = .skipped) :
    contents rs = [] := by
  induction rs with
  | nil => rfl
  | cons p rs ih =>
    obtain ⟨c, role⟩ := p
    have here : role = .skipped := skipped (c, role) List.mem_cons_self
    rw [here, contents_skipped]
    exact ih fun q listed => skipped q (List.mem_cons_of_mem _ listed)

theorem opens_contents {c : Char} {kind : TokenKind} {rs : List (Char × Role)}
    (opens : (c, .opens kind) ∈ rs) : ∃ text, (kind, c :: text) ∈ contents rs := by
  induction rs with
  | nil => cases opens
  | cons p rs ih =>
    rcases List.mem_cons.mp opens with here | later
    · rw [← here, contents_opens]
      exact ⟨_, List.mem_cons_self⟩
    · obtain ⟨text, listed⟩ := ih later
      obtain ⟨d, role⟩ := p
      refine ⟨text, ?_⟩
      cases role with
      | opens kind' =>
        rw [contents_opens]
        exact List.mem_cons_of_mem _ listed
      | continues =>
        rw [contents_continues]
        exact listed
      | skipped =>
        rw [contents_skipped]
        exact listed

/-- In ordinary text among tokens every mark is a token. -/
theorem mark_opens {s : ReadState} {x : List Char} {c : Char} (quiet : ∀ d ∈ x, calm d)
    (active : s.region.active) (member : c ∈ x) (mark : isMark c) (following : Option Char) :
    (c, .opens .punct) ∈ rolesBefore following s x := by
  obtain ⟨front, back, text⟩ := List.append_of_mem member
  subst text
  have crosses := Region.crossesLines_of_active active
  have settled := settled_after (s := s) (fun d inside => quiet d (List.mem_append_left _ inside))
    (Or.inr crosses) ((c :: back).head?.or following)
  have active' : (s.after front ((c :: back).head?.or following)).region.active := by
    rw [← Region.active_settled, settled, Region.active_settled]
    exact active
  rw [rolesBefore_append]
  apply List.mem_append_right
  rw [rolesBefore, read_mark mark active']
  exact List.mem_cons_self

theorem read_steady {s : ReadState} {c : Char} (quiet : calm c) (inside : c ≠ '\n')
    (ends : s.region.crossesLines = false) (steady : s.region.settled = s.region ∨ c ≠ '\r')
    (next : Option Char) : (s.read c next).1 = s.region.settled := by
  have marks := quiet
  simp only [calm, Bool.and_eq_true, decide_eq_true_eq] at marks
  obtain ⟨⟨⟨_, _⟩, quote⟩, backslash⟩ := marks
  cases region : s.region with
  | between lineStart => simp [region, Region.crossesLines] at ends
  | word => simp [region, Region.crossesLines] at ends
  | number afterExponent => simp [region, Region.crossesLines] at ends
  | blockOpening => simp [region, Region.crossesLines] at ends
  | block afterStar => simp [region, Region.crossesLines] at ends
  | lineComment => simp [ReadState.read, region, inside, Region.settled]
  | quoted escaped =>
    cases escaped <;> simp [ReadState.read, region, backslash, quote, inside, Region.settled]
  | directive continuation =>
    rcases steady with same | other
    · rw [region] at same
      cases same
      simp [ReadState.read, region, readDirective, inside, backslash, Region.settled]
    · simp [ReadState.read, region, readDirective, inside, backslash, other, Region.settled]

theorem after_steady {s : ReadState} {x : List Char} (quiet : ∀ c ∈ x, calm c)
    (unbroken : '\n' ∉ x) (ends : s.region.crossesLines = false)
    (steady : s.region.settled = s.region) (following : Option Char) :
    (s.after x following).region = s.region := by
  induction x generalizing s with
  | nil => rfl
  | cons c x ih =>
    have inside : c ≠ '\n' := fun same => unbroken (by rw [same]; exact List.mem_cons_self)
    have here : (s.next c (x.head?.or following)).region = s.region := by
      rw [ReadState.next, read_steady (quiet c List.mem_cons_self) inside ends (Or.inl steady)]
      exact steady
    rw [ReadState.after, ih (fun d member => quiet d (List.mem_cons_of_mem c member))
      (fun broken => unbroken (List.mem_cons_of_mem c broken)), here]
    · rw [here]
      exact ends
    · rw [here]
      exact steady

theorem read_newline_steady {s : ReadState} (ends : s.region.crossesLines = false)
    (steady : s.region.settled = s.region) (next : Option Char) :
    (s.read '\n' next).1 = .between true := by
  cases region : s.region with
  | between lineStart => simp [region, Region.crossesLines] at ends
  | word => simp [region, Region.crossesLines] at ends
  | number afterExponent => simp [region, Region.crossesLines] at ends
  | blockOpening => simp [region, Region.crossesLines] at ends
  | block afterStar => simp [region, Region.crossesLines] at ends
  | lineComment => simp [ReadState.read, region]
  | quoted escaped =>
    rw [region] at steady
    cases steady
    simp [ReadState.read, region]
  | directive continuation =>
    rw [region] at steady
    cases steady
    simp [ReadState.read, region, readDirective]

end ShaderBench.Shader
