import ShaderBench.Proofs.Text.Bytes
/-
A rewritten text as a list of pieces: characters that stay, and stretches that others take the
place of. The lines of a text that stay whole are followed through a rewriting.
-/
namespace ShaderBench.Text

inductive Piece where
  | kept (c : Char)
  | swapped (old new : List Char)
  deriving DecidableEq, Repr

@[grind =] def Piece.old : Piece → List Char
  | .kept c => [c]
  | .swapped old _ => old

@[grind =] def Piece.new : Piece → List Char
  | .kept c => [c]
  | .swapped _ new => new

def original (ps : List Piece) : List Char := ps.flatMap Piece.old

def rewritten (ps : List Piece) : List Char := ps.flatMap Piece.new

def untouched (s : List Char) : List Piece := s.map .kept

@[simp] theorem original_nil : original [] = [] := rfl

@[simp] theorem rewritten_nil : rewritten [] = [] := rfl

@[simp] theorem original_cons (p : Piece) (ps : List Piece) :
    original (p :: ps) = p.old ++ original ps := rfl

@[simp] theorem rewritten_cons (p : Piece) (ps : List Piece) :
    rewritten (p :: ps) = p.new ++ rewritten ps := rfl

@[simp] theorem original_append (ps qs : List Piece) :
    original (ps ++ qs) = original ps ++ original qs := List.flatMap_append

@[simp] theorem rewritten_append (ps qs : List Piece) :
    rewritten (ps ++ qs) = rewritten ps ++ rewritten qs := List.flatMap_append

@[simp] theorem original_untouched (s : List Char) : original (untouched s) = s := by
  induction s with
  | nil => rfl
  | cons c s ih => exact congrArg (c :: ·) ih

@[simp] theorem rewritten_untouched (s : List Char) : rewritten (untouched s) = s := by
  induction s with
  | nil => rfl
  | cons c s ih => exact congrArg (c :: ·) ih

@[simp] theorem untouched_append (s t : List Char) :
    untouched (s ++ t) = untouched s ++ untouched t := List.map_append

theorem swapped_past {s old new : List Char} {ps front back : List Piece}
    (parts : untouched s ++ ps = front ++ .swapped old new :: back) :
    ∃ more, front = untouched s ++ more ∧ ps = more ++ .swapped old new :: back := by
  induction s generalizing front with
  | nil => exact ⟨front, rfl, parts⟩
  | cons c s ih =>
    cases front with
    | nil => cases parts
    | cons p front =>
      obtain ⟨same, rest⟩ := List.cons.inj parts
      obtain ⟨more, begins, ends⟩ := ih rest
      exact ⟨more, by rw [begins, ← same]; rfl, ends⟩

/- Stretches of a text by their byte positions, ascending and apart. -/

/-- The text begins at the position; the stretches lie in it one after the other. -/
@[grind =] def Apart : Nat → List Char → List (Nat × Nat) → Prop
  | _, _, [] => True
  | position, s, (start, stop) :: rest =>
    ∃ gap middle after, s = gap ++ middle ++ after ∧ start = position + byteLength gap ∧
      stop = start + byteLength middle ∧ Apart stop after rest

theorem Apart.prepend {position : Nat} {s : List Char} {spans : List (Nat × Nat)}
    (a : List Char) (apart : Apart (position + byteLength a) s spans) :
    Apart position (a ++ s) spans := by
  cases spans with
  | nil => trivial
  | cons span rest =>
    obtain ⟨gap, middle, after, text, first, last, tail⟩ := apart
    refine ⟨a ++ gap, middle, after, ?_, ?_, last, tail⟩
    · rw [text]
      simp
    · rw [first, byteLength_append, Nat.add_assoc]

theorem Apart.tail {position start stop : Nat} {s : List Char} {rest : List (Nat × Nat)}
    (apart : Apart position s ((start, stop) :: rest)) : Apart position s rest := by
  obtain ⟨gap, middle, after, text, first, last, tail⟩ := apart
  rw [text]
  apply Apart.prepend
  rwa [byteLength_append, ← Nat.add_assoc, ← first, ← last]

theorem Apart.sublist {position : Nat} {s : List Char} {spans some : List (Nat × Nat)}
    (apart : Apart position s spans) (chosen : some.Sublist spans) : Apart position s some := by
  induction chosen generalizing position s with
  | slnil => trivial
  | cons span _ ih => exact ih apart.tail
  | cons_cons span _ ih =>
    obtain ⟨gap, middle, after, text, first, last, tail⟩ := apart
    exact ⟨gap, middle, after, text, first, last, ih tail⟩

theorem Apart.past {a s : List Char} {position : Nat} {spans : List (Nat × Nat)}
    (apart : Apart position (a ++ s) spans)
    (later : ∀ span ∈ spans, position + byteLength a ≤ span.1) :
    Apart (position + byteLength a) s spans := by
  cases spans with
  | nil => trivial
  | cons span rest =>
    obtain ⟨gap, middle, after, text, first, last, tail⟩ := apart
    have far := later _ List.mem_cons_self
    rw [List.append_assoc] at text
    rcases List.append_eq_append_iff.mp text with ⟨more, same, text'⟩ | ⟨extra, same, text'⟩
    · subst same
      refine ⟨more, middle, after, ?_, ?_, last, tail⟩
      · rw [text', List.append_assoc]
      · rw [first, byteLength_append, Nat.add_assoc]
    · subst same
      have none : extra = [] := by
        cases extra with
        | nil => rfl
        | cons c extra =>
          have wide : 0 < c.utf8Size := c.utf8Size_pos
          simp only [first, byteLength_append, byteLength_cons] at far
          omega
      subst none
      rw [List.nil_append] at text'
      rw [List.append_nil]
      exact ⟨[], middle, after, text'.symm, first, last, tail⟩

theorem Apart.join {position start stop start' stop' : Nat} {s : List Char}
    {rest : List (Nat × Nat)} (apart : Apart position s ((start, stop) :: (start', stop') :: rest)) :
    Apart position s ((start, stop') :: rest) := by
  obtain ⟨gap, middle, _, text, first, last, gap', middle', after, text', first', last', tail⟩ := apart
  refine ⟨gap, middle ++ gap' ++ middle', after, ?_, first, ?_, tail⟩
  · rw [text, text']
    simp
  · simp only [byteLength_append]
    omega

/-- Each stretch is a part of the text, with its positions counted from the start. -/
theorem Apart.part {position start stop : Nat} {s : List Char} {spans : List (Nat × Nat)}
    (apart : Apart position s spans) (listed : (start, stop) ∈ spans) :
    ∃ before middle after, s = before ++ middle ++ after ∧
      start = position + byteLength before ∧ stop = start + byteLength middle := by
  induction spans with
  | nil => cases listed
  | cons span rest ih =>
    rcases List.mem_cons.mp listed with here | later
    · subst here
      obtain ⟨gap, middle, after, text, first, last, _⟩ := apart
      exact ⟨gap, middle, after, text, first, last⟩
    · exact ih apart.tail later

theorem Apart.later {position : Nat} {s : List Char} {spans : List (Nat × Nat)}
    (apart : Apart position s spans) {span : Nat × Nat} (listed : span ∈ spans) :
    position ≤ span.1 ∧ span.1 ≤ span.2 := by
  obtain ⟨before, middle, after, _, start, stop⟩ := apart.part listed
  omega

theorem Apart.pairwise {position : Nat} {s : List Char} {spans : List (Nat × Nat)}
    (apart : Apart position s spans) : spans.Pairwise fun a b => a.2 ≤ b.1 := by
  induction spans generalizing position s with
  | nil => exact .nil
  | cons span spans ih =>
    obtain ⟨_, _, _, _, _, _, later⟩ := apart
    exact .cons (fun b listed => (later.later listed).1) (ih later)

def Edit.span (e : Edit) : Nat × Nat := (e.start, e.stop)

/-- The pieces that edits make of a text that begins at a position. -/
@[grind =] def edited (position : Nat) (s : List Char) : List Edit → List Piece
  | [] => untouched s
  | e :: es =>
    match cutAt? (e.start - position) s with
    | none => untouched s
    | some (gap, rest) =>
      match cutAt? (e.stop - e.start) rest with
      | none => untouched s
      | some (old, after) => untouched gap ++ .swapped old e.text :: edited e.stop after es

theorem edited_cons {position : Nat} {gap old after : List Char} {e : Edit} (es : List Edit)
    (first : e.start = position + byteLength gap) (last : e.stop = e.start + byteLength old) :
    edited position (gap ++ old ++ after) (e :: es) =
      untouched gap ++ .swapped old e.text :: edited e.stop after es := by
  have cut : cutAt? (e.start - position) (gap ++ old ++ after) = some (gap, old ++ after) := by
    rw [first, Nat.add_sub_cancel_left, List.append_assoc]
    exact cutAt?_append gap (old ++ after)
  have cut' : cutAt? (e.stop - e.start) (old ++ after) = some (old, after) := by
    rw [last, Nat.add_sub_cancel_left]
    exact cutAt?_append old after
  simp only [edited, cut, cut']

theorem original_edited {position : Nat} {s : List Char} {es : List Edit}
    (apart : Apart position s (es.map Edit.span)) : original (edited position s es) = s := by
  induction es generalizing position s with
  | nil => exact original_untouched s
  | cons e es ih =>
    obtain ⟨gap, old, after, text, first, last, tail⟩ := apart
    rw [text, edited_cons es first last, original_append, original_untouched, original_cons, ih tail]
    exact (List.append_assoc _ _ _).symm

/-- Edits that lie apart can be applied, and the result is that of their pieces. -/
theorem splice_edited {position : Nat} {s : List Char} {es : List Edit}
    (apart : Apart position s (es.map Edit.span)) :
    splice position s es = some (rewritten (edited position s es)) := by
  induction es generalizing position s with
  | nil => exact congrArg some (rewritten_untouched s).symm
  | cons e es ih =>
    obtain ⟨gap, old, after, text, first, last, tail⟩ := apart
    have ordered : position ≤ e.start ∧ e.start ≤ e.stop := by omega
    have cut : cutAt? (e.start - position) s = some (gap, old ++ after) := by
      rw [text, first, Nat.add_sub_cancel_left, List.append_assoc]
      exact cutAt?_append gap (old ++ after)
    have cut' : cutAt? (e.stop - e.start) (old ++ after) = some (old, after) := by
      rw [last, Nat.add_sub_cancel_left]
      exact cutAt?_append old after
    rw [splice, if_pos ordered, cut]
    simp only [bind, Option.bind, cut', ih tail]
    rw [text, edited_cons es first last, rewritten_append, rewritten_untouched, rewritten_cons]
    exact congrArg some (List.append_assoc _ _ _)

theorem edited_upTo {position : Nat} {a : List Char} {es : List Edit}
    (apart : Apart position a (es.map Edit.span)) (b : List Char) :
    edited position (a ++ b) es = edited position a es ++ untouched b := by
  induction es generalizing position a with
  | nil => exact untouched_append a b
  | cons e es ih =>
    obtain ⟨gap, old, after, text, first, last, tail⟩ := apart
    rw [text, List.append_assoc, edited_cons es first last, edited_cons es first last, ih tail,
      List.append_assoc, List.cons_append]

theorem edited_swapped {position : Nat} {s : List Char} {es : List Edit}
    (apart : Apart position s (es.map Edit.span)) {front back : List Piece} {old new : List Char}
    (parts : edited position s es = front ++ .swapped old new :: back) :
    ∃ e ∈ es, s = original front ++ old ++ original back ∧ e.text = new ∧
      e.start = position + byteLength (original front) ∧ e.stop = e.start + byteLength old := by
  induction es generalizing position s front with
  | nil =>
    obtain ⟨more, _, none⟩ := swapped_past ((List.append_nil (untouched s)).trans parts)
    exact absurd none (by simp)
  | cons e es ih =>
    obtain ⟨gap, old', after, text, first, last, tail⟩ := apart
    rw [text, edited_cons es first last] at parts
    obtain ⟨more, rfl, rest⟩ := swapped_past parts
    cases more with
    | nil =>
      cases rest
      refine ⟨e, List.mem_cons_self, ?_, rfl, ?_, last⟩
      · rw [text, original_edited tail, List.append_nil, original_untouched]
      · rw [first, List.append_nil, original_untouched]
    | cons p more =>
      obtain ⟨rfl, later⟩ := List.cons.inj rest
      obtain ⟨e', member, text', same, start, stop⟩ := ih tail later
      refine ⟨e', List.mem_cons_of_mem e member, ?_, same, ?_, stop⟩
      · rw [text, text', original_append, original_untouched, original_cons]
        simp only [Piece.old, List.append_assoc]
      · rw [start, last, first, original_append, original_untouched, original_cons]
        simp only [Piece.old, byteLength_append]
        omega

/- Line breaks and lines. -/

def KeepsBreaks (ps : List Piece) : Prop := ∀ p ∈ ps, newlines p.new = newlines p.old

theorem keepsBreaks_untouched (s : List Char) : KeepsBreaks (untouched s) := by
  intro p listed
  obtain ⟨c, _, same⟩ := List.mem_map.mp listed
  subst same
  rfl

theorem keepsBreaks_edited {position : Nat} {s : List Char} {es : List Edit}
    (apart : Apart position s (es.map Edit.span))
    (each : ∀ e ∈ es, ∀ before old after, s = before ++ old ++ after →
      e.start = position + byteLength before → e.stop = e.start + byteLength old →
      newlines e.text = newlines old) : KeepsBreaks (edited position s es) := by
  intro p listed
  obtain ⟨front, back, parts⟩ := List.append_of_mem listed
  cases p with
  | kept c => rfl
  | swapped old new =>
    obtain ⟨e, member, text, same, start, stop⟩ := edited_swapped apart parts
    subst same
    exact each e member _ old _ text start stop

theorem KeepsBreaks.newlines {ps : List Piece} (keeps : KeepsBreaks ps) :
    newlines (rewritten ps) = newlines (original ps) := by
  induction ps with
  | nil => rfl
  | cons p ps ih =>
    have here := keeps p List.mem_cons_self
    have there := ih fun q listed => keeps q (List.mem_cons_of_mem p listed)
    simp [here, there]

theorem newlines_rewritten_le {ps : List Piece}
    (shrinks : ∀ p ∈ ps, newlines p.new ≤ newlines p.old) :
    newlines (rewritten ps) ≤ newlines (original ps) := by
  induction ps with
  | nil => exact Nat.le_refl _
  | cons p ps ih =>
    have here := shrinks p List.mem_cons_self
    have there := ih fun q listed => shrinks q (List.mem_cons_of_mem p listed)
    simp only [rewritten_cons, original_cons, newlines_append]
    omega

/-- A rewriting that adds no line break keeps their number only if each piece does. -/
theorem keepsBreaks_of_newlines {ps : List Piece}
    (shrinks : ∀ p ∈ ps, newlines p.new ≤ newlines p.old)
    (same : newlines (rewritten ps) = newlines (original ps)) : KeepsBreaks ps := by
  induction ps with
  | nil => intro p listed; cases listed
  | cons p ps ih =>
    have here := shrinks p List.mem_cons_self
    have shrinks' : ∀ q ∈ ps, newlines q.new ≤ newlines q.old :=
      fun q listed => shrinks q (List.mem_cons_of_mem p listed)
    have there := newlines_rewritten_le shrinks'
    simp only [rewritten_cons, original_cons, newlines_append] at same
    intro q listed
    rcases List.mem_cons.mp listed with first | later
    · subst first
      omega
    · exact ih shrinks' (by omega) q later

def Unbroken (ps : List Piece) : Prop := ∀ old new, .swapped old new ∈ ps → '\n' ∉ old

theorem keepsBreaks_iff_unbroken {ps : List Piece}
    (none : ∀ old new, .swapped old new ∈ ps → newlines new = 0) :
    KeepsBreaks ps ↔ Unbroken ps := by
  constructor
  · intro keeps old new listed broken
    have same : newlines new = newlines old := keeps _ listed
    rw [none old new listed] at same
    exact List.count_eq_zero.mp same.symm broken
  · intro unbroken p listed
    cases p with
    | kept c => rfl
    | swapped old new =>
      exact (none old new listed).trans (newlines_eq_zero (unbroken old new listed)).symm

@[grind =] def fromLine? : Nat → List Char → Option (List Char)
  | 0, s => some s
  | _ + 1, [] => none
  | k + 1, c :: s => if c = '\n' then fromLine? k s else fromLine? (k + 1) s

def line? (k : Nat) (s : List Char) : Option (List Char) := (fromLine? k s).map restOfLine

theorem fromLine?_append {front : List Char} (whole : ∀ c ∈ front.getLast?, c = '\n')
    (s : List Char) : fromLine? (newlines front) (front ++ s) = some s := by
  induction front with
  | nil => cases s <;> rfl
  | cons c front ih =>
    by_cases last : front = []
    · subst last
      have broken : c = '\n' := whole c rfl
      subst broken
      cases s <;> rfl
    · have whole' : ∀ d ∈ front.getLast?, d = '\n' := by
        intro d ends
        apply whole d
        rwa [List.getLast?_cons_of_ne_nil last]
      by_cases broken : c = '\n'
      · subst broken
        have one : newlines ('\n' :: front) = newlines front + 1 := by simp [Nat.add_comm]
        rw [one, List.cons_append, fromLine?, if_pos rfl]
        exact ih whole'
      · obtain ⟨k, more⟩ : ∃ k, newlines front = k + 1 := by
          have ends := List.getLast?_eq_some_getLast last
          have member : '\n' ∈ front := whole' _ ends ▸ List.mem_of_getLast? ends
          have positive : 0 < newlines front := List.count_pos_iff.mpr member
          exact ⟨newlines front - 1, by omega⟩
        have same : newlines (c :: front) = k + 1 := by simp [broken, more]
        rw [same, List.cons_append, fromLine?, if_neg broken, ← more]
        exact ih whole'

theorem restOfLine_append {line back : List Char} (unbroken : '\n' ∉ line)
    (whole : ∀ c ∈ back.head?, c = '\n') : restOfLine (line ++ back) = line := by
  unfold restOfLine
  rw [List.takeWhile_append_of_pos]
  · cases back with
    | nil => simp
    | cons c back =>
      have broken : c = '\n' := whole c rfl
      subst broken
      simp
  · intro c member
    simp only [decide_eq_true_eq]
    intro broken
    exact unbroken (broken ▸ member)

theorem line?_between {front line back : List Char} (before : ∀ c ∈ front.getLast?, c = '\n')
    (unbroken : '\n' ∉ line) (after : ∀ c ∈ back.head?, c = '\n') :
    line? (newlines front) (front ++ line ++ back) = some line := by
  rw [line?, List.append_assoc, fromLine?_append before, Option.map_some,
    restOfLine_append unbroken after]

/-- A line of a text, after k line breaks, that stays whole with the breaks around it, and that
    comes after j line breaks then. -/
structure Carried (ps : List Piece) (k j : Nat) (line : List Char) : Prop where
  unbroken : '\n' ∉ line
  place : ∃ front back, ps = front ++ untouched line ++ back ∧
    (∀ p ∈ front.getLast?, p = .kept '\n') ∧ (∀ p ∈ back.head?, p = .kept '\n') ∧
    newlines (original front) = k ∧ newlines (rewritten front) = j

theorem getLast?_flatMap_kept {f : Piece → List Char} (same : ∀ c, f (.kept c) = [c])
    {front : List Piece} (whole : ∀ p ∈ front.getLast?, p = .kept '\n') :
    ∀ c ∈ (front.flatMap f).getLast?, c = '\n' := by
  intro c ends
  rcases List.eq_nil_or_concat front with none | ⟨rest, last, text⟩
  · subst none
    cases ends
  · rw [List.concat_eq_append] at text
    subst text
    have kept : last = .kept '\n' := whole last (by simp)
    subst kept
    simp only [List.flatMap_append, List.flatMap_cons, List.flatMap_nil, same, List.append_nil,
      List.getLast?_append, List.getLast?_singleton, Option.some_or, Option.mem_def,
      Option.some.injEq] at ends
    exact ends.symm

theorem head?_flatMap_kept {f : Piece → List Char} (same : ∀ c, f (.kept c) = [c])
    {back : List Piece} (whole : ∀ p ∈ back.head?, p = .kept '\n') :
    ∀ c ∈ (back.flatMap f).head?, c = '\n' := by
  intro c begins
  cases back with
  | nil => cases begins
  | cons p back =>
    have kept : p = .kept '\n' := whole p rfl
    subst kept
    simp only [List.flatMap_cons, same, List.cons_append, List.head?_cons, Option.mem_def,
      Option.some.injEq] at begins
    exact begins.symm

theorem Carried.line? {ps : List Piece} {k j : Nat} {line : List Char}
    (carried : Carried ps k j line) :
    line? k (original ps) = some line ∧ line? j (rewritten ps) = some line := by
  obtain ⟨front, back, text, before, after, counted, counted'⟩ := carried.place
  subst text counted counted'
  simp only [original_append, rewritten_append, original_untouched, rewritten_untouched]
  constructor
  · exact line?_between (getLast?_flatMap_kept (fun _ => rfl) before) carried.unbroken
      (head?_flatMap_kept (fun _ => rfl) after)
  · exact line?_between (getLast?_flatMap_kept (fun _ => rfl) before) carried.unbroken
      (head?_flatMap_kept (fun _ => rfl) after)

theorem Carried.same_place {ps : List Piece} {k j : Nat} {line : List Char}
    (carried : Carried ps k j line) (keeps : KeepsBreaks ps) : j = k := by
  obtain ⟨front, back, text, _, _, counted, counted'⟩ := carried.place
  rw [← counted, ← counted']
  apply KeepsBreaks.newlines
  intro p listed
  exact keeps p (by simp [text, listed])

/-- Past the one piece that adds line breaks a carried line comes later by as many. -/
theorem Carried.past {front back : List Piece} {p : Piece} {k j : Nat} {line : List Char}
    (carried : Carried (front ++ p :: back) k j line) (before : KeepsBreaks front)
    (after : KeepsBreaks back) (unbroken : newlines p.old = 0)
    (far : newlines (original front) < k) : j = k + newlines p.new := by
  obtain ⟨front', back', text, _, _, counted, counted'⟩ := carried.place
  rw [List.append_assoc] at text
  rcases List.append_eq_append_iff.mp text with ⟨more, same, text'⟩ | ⟨extra, same, _⟩
  · cases more with
    | nil =>
      rw [List.append_nil] at same
      rw [← counted, same] at far
      exact absurd far (Nat.lt_irrefl _)
    | cons q more =>
      obtain ⟨first, rest⟩ := List.cons.inj text'
      subst first
      have kept : KeepsBreaks more := fun r listed => after r (by
        rw [rest]
        exact List.mem_append_left _ listed)
      have here := before.newlines
      have there := kept.newlines
      rw [same] at counted counted'
      simp only [original_append, original_cons, rewritten_append, rewritten_cons,
        newlines_append] at counted counted'
      omega
  · rw [same, original_append, newlines_append] at far
    omega

end ShaderBench.Text
