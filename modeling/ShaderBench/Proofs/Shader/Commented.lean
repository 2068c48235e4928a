import ShaderBench.Proofs.Shader.Parts
import ShaderBench.Proofs.Shader.Passes
import ShaderBench.Proofs.Shader.Places
/-
Statements that become comments: which comments stand for no tokens, what the reader's state may
differ in after them, and the tokens that are left.
-/
namespace ShaderBench.Shader
open Text

def firstSolid (text : List Char) : Option Char := (text.dropWhile isSpacing).head?

def Passing (r : Region) : Prop := Between r ∨ r = .lineComment

/-- Two states in which a text is read alike: they are the same, or they differ in whether a line
    has begun and no directive follows, or there is only spacing up to the end of the line. -/
inductive Agree (text : List Char) (s s' : ReadState) : Prop
  | same (same : s = s') : Agree text s s'
  | between (first : Between s.region) (last : Between s'.region) (run : s.run = s'.run)
      (solid : firstSolid text ≠ some '#') : Agree text s s'
  | passing (first : Passing s.region) (last : Passing s'.region)
      (spacing : ∀ c ∈ restOfLine text, isSpacing c) : Agree text s s'

/-- The characters after a text that is read twice: they are the same, or a word and a comment begin
    with them, and no slash before makes a difference of that. -/
def Alike (s : ReadState) (x : List Char) (next next' : Option Char) : Prop :=
  next = next' ∨ next = some 'u' ∧ next' = some '/' ∧
    ∀ front, x = front ++ ['/'] →
      ((s.after front (some '/')).read '/' next).2 ≠ .opens .punct

theorem readBetween_ahead (lineStart : Bool) {c : Char} (other : c ≠ '/') :
    readBetween lineStart c (some 'u') = readBetween lineStart c (some '/') := by
  have digit : (some 'u').any Char.isDigit = (some '/').any Char.isDigit := by decide
  simp [readBetween, other, digit]

theorem read_ahead {s : ReadState} {c : Char}
    (clear : c = '/' → (s.read c (some 'u')).2 ≠ .opens .punct) :
    s.read c (some 'u') = s.read c (some '/') := by
  by_cases slash : c = '/'
  · subst slash
    have inactive : s.region.active = false := by
      rw [Bool.eq_false_iff]
      intro active
      apply clear rfl
      rw [read_opening active (Or.inl rfl)]
      simp [readBetween, isSpacing, startsName]
    cases region : s.region with
    | between lineStart => simp [region, Region.active] at inactive
    | word => simp [region, Region.active] at inactive
    | number afterExponent => simp [region, Region.active] at inactive
    | lineComment => simp [ReadState.read, region]
    | blockOpening => simp [ReadState.read, region]
    | block afterStar => simp [ReadState.read, region]
    | quoted escaped => simp [ReadState.read, region]
    | directive continuation => simp [ReadState.read, region]
  · unfold ReadState.read
    simp only [readBetween_ahead _ slash]

theorem Alike.read {s : ReadState} {c : Char} {next next' : Option Char}
    (alike : Alike s [c] next next') : s.read c next = s.read c next' := by
  rcases alike with same | ⟨word, comment, clear⟩
  · rw [same]
  · subst word comment
    refine read_ahead fun slash => ?_
    subst slash
    exact clear [] rfl

theorem Alike.tail {s : ReadState} {c : Char} {x : List Char} {next next' : Option Char}
    (alike : Alike s (c :: x) next next') :
    Alike s [c] (x.head?.or next) (x.head?.or next') ∧
      Alike (s.next c (x.head?.or next)) x next next' := by
  rcases alike with same | ⟨word, comment, clear⟩
  · exact ⟨.inl (by rw [same]), .inl same⟩
  · constructor
    · cases x with
      | nil => exact .inr ⟨word, comment, clear⟩
      | cons d x => exact .inl rfl
    · refine .inr ⟨word, comment, fun front same => ?_⟩
      have later := clear (c :: front) (by rw [same]; rfl)
      rw [same]
      have ahead : (front ++ ['/']).head?.or next = front.head?.or (some '/') := by
        cases front <;> rfl
      rw [ahead]
      exact later

theorem readBetween_line {c : Char} (other : c ≠ '#') (next : Option Char) (b b' : Bool)
    (solid : isSpacing c = false) : readBetween b c next = readBetween b' c next := by
  simp [readBetween, other, solid]

theorem firstSolid_spacing {c : Char} (spacing : isSpacing c) (text : List Char) :
    firstSolid (c :: text) = firstSolid text := by
  rw [firstSolid, List.dropWhile_cons_of_pos spacing, firstSolid]

theorem firstSolid_solid {c : Char} (solid : isSpacing c = false) (text : List Char) :
    firstSolid (c :: text) = some c := by
  rw [firstSolid, List.dropWhile_cons_of_neg (by simp [solid])]
  rfl

theorem extend_spacing {c : Char} (space : isSpace c) (run : Run) : run.extend c = .empty := by
  have plain : c.isAlphanum = false ∧ c ≠ '.' := by
    simp only [isSpace, isSpacing, Bool.or_eq_true, decide_eq_true_eq] at space
    rcases space with (((blank | tab) | feed) | ret) | newline
    all_goals
      subst c
      decide
  simp [Run.extend, plain.1, plain.2]

theorem read_passing {s : ReadState} (passing : Passing s.region) {c : Char} (next : Option Char) :
    (isSpacing c → s.read c next = (s.region, .skipped)) ∧
      (c = '\n' → s.read c next = (.between true, .skipped)) := by
  have inside : isSpacing c → c ≠ '\n' := by
    intro spacing newline
    subst newline
    exact absurd spacing (by decide)
  rcases passing with ⟨lineStart, region⟩ | region
  · simp only [ReadState.read, region]
    refine ⟨fun spacing => ?_, fun newline => ?_⟩
    · simp [readBetween, inside spacing, spacing]
    · simp [readBetween, newline]
  · simp only [ReadState.read, region]
    refine ⟨fun spacing => ?_, fun newline => ?_⟩
    · simp [inside spacing]
    · simp [newline]

theorem Agree.next {s s' : ReadState} {c : Char} {text : List Char} {next next' : Option Char}
    (agree : Agree (c :: text) s s') (alike : Alike s [c] next next') :
    (s.read c next).2 = (s'.read c next').2 ∧ Agree text (s.next c next) (s'.next c next') := by
  cases agree with
  | same same =>
    subst same
    have read := alike.read
    exact ⟨by rw [read], .same (by rw [ReadState.next, read, ReadState.next])⟩
  | between first last run solid =>
    by_cases space : isSpacing c ∨ c = '\n'
    · have keeps := read_passing (.inl first) (c := c) next
      have keeps' := read_passing (.inl last) (c := c) next'
      have empty : s.run.extend c = s'.run.extend c := by rw [run]
      rcases space with spacing | newline
      · refine ⟨by rw [keeps.1 spacing, keeps'.1 spacing], .between ?_ ?_ empty ?_⟩
        · rw [ReadState.next, keeps.1 spacing]
          exact first
        · rw [ReadState.next, keeps'.1 spacing]
          exact last
        · rwa [firstSolid_spacing spacing] at solid
      · refine ⟨by rw [keeps.2 newline, keeps'.2 newline], .same ?_⟩
        rw [ReadState.next, ReadState.next, keeps.2 newline, keeps'.2 newline, empty]
    · have plain : isSpacing c = false := Bool.eq_false_iff.mpr fun spacing => space (.inl spacing)
      have other : c ≠ '#' := by
        rw [firstSolid_solid plain] at solid
        exact fun same => solid (by rw [same])
      obtain ⟨b, region⟩ := first
      obtain ⟨b', region'⟩ := last
      have read : s.read c next = s'.read c next' := by
        rw [alike.read]
        simp only [ReadState.read, region, region']
        exact readBetween_line other next' b b' plain
      exact ⟨by rw [read], .same (by rw [ReadState.next, ReadState.next, read, run])⟩
  | passing first last spacing =>
    have keeps := read_passing first (c := c) next
    have keeps' := read_passing last (c := c) next'
    by_cases newline : c = '\n'
    · refine ⟨by rw [keeps.2 newline, keeps'.2 newline], .same ?_⟩
      have space : isSpace c := by simp [isSpace, newline]
      rw [ReadState.next, ReadState.next, keeps.2 newline, keeps'.2 newline,
        extend_spacing space, extend_spacing space]
    · have rest : restOfLine (c :: text) = c :: restOfLine text := by
        simp [restOfLine, newline]
      rw [rest] at spacing
      have here : isSpacing c := spacing c List.mem_cons_self
      refine ⟨by rw [keeps.1 here, keeps'.1 here], .passing ?_ ?_ ?_⟩
      · rw [ReadState.next, keeps.1 here]
        exact first
      · rw [ReadState.next, keeps'.1 here]
        exact last
      · exact fun d listed => spacing d (List.mem_cons_of_mem c listed)

theorem Agree.after {s s' : ReadState} {gap text : List Char} {next next' : Option Char}
    (agree : Agree (gap ++ text) s s') (alike : Alike s gap next next') :
    rolesBefore next s gap = rolesBefore next' s' gap ∧
      Agree text (s.after gap next) (s'.after gap next') := by
  induction gap generalizing s s' with
  | nil => exact ⟨rfl, agree⟩
  | cons c gap ih =>
    obtain ⟨here, later⟩ := alike.tail
    obtain ⟨role, agree'⟩ := agree.next here
    obtain ⟨roles, rest⟩ := ih agree' later
    exact ⟨by rw [rolesBefore, role, roles, rolesBefore], rest⟩

/-- A comment that stands for no tokens before a text: a block comment, with line breaks only if no
    directive would begin after them, or a comment to the end of a line with spacing only. -/
inductive Comment (text : List Char) : List Char → Prop
  | block (inner : List Char) (breaks : Nat) (open' : '*' ∉ inner)
      (solid : breaks = 0 ∨ firstSolid text ≠ some '#') :
      Comment text (['/', '*'] ++ (inner ++ (['*', '/'] ++ blankLines breaks)))
  | line (inner : List Char) (unbroken : '\n' ∉ inner)
      (spacing : ∀ c ∈ restOfLine text, isSpacing c) : Comment text (['/', '/'] ++ inner)

theorem reads_skipped {first last : Region → Prop} {c : Char}
    (skips : ∀ (s : ReadState) next, first s.region →
      (s.read c next).2 = .skipped ∧ last (s.read c next).1) : Reads first [c] [] last := by
  intro s following start
  obtain ⟨role, region⟩ := skips s ([].head?.or following) start
  refine ⟨?_, ?_, region⟩
  · intro p listed
    cases listed
    rw [role]
    simp
  · rw [rolesBefore, role, contents_skipped]
    rfl

theorem reads_inside {r : Region} {x : List Char}
    (inside : ∀ c ∈ x, ∀ (s : ReadState) next, s.region = r → s.read c next = (r, .skipped)) :
    Reads (· = r) x [] (· = r) := by
  induction x with
  | nil => exact reads_nil _
  | cons c x ih =>
    have here : Reads (· = r) [c] [] (· = r) := reads_skipped fun s next region => by
      rw [inside c List.mem_cons_self s next region]
      exact ⟨rfl, rfl⟩
    exact here.append (ih fun d listed => inside d (List.mem_cons_of_mem c listed))

theorem reads_opening {c : Char} {last : Region → Prop}
    (opens : ∀ lineStart, ∃ r, readBetween lineStart '/' (some c) = (r, .skipped) ∧
      ∀ (s : ReadState) next, s.region = r → (s.read c next).2 = .skipped ∧ last (s.read c next).1) :
    Reads Between ['/', c] [] last := by
  rintro s following ⟨lineStart, region⟩
  obtain ⟨r, first, second⟩ := opens lineStart
  have read : s.read '/' (some c) = (r, .skipped) := by
    simp only [ReadState.read, region]
    exact first
  have inside : (s.next '/' (some c)).region = r := by rw [ReadState.next, read]
  obtain ⟨role, after⟩ := second (s.next '/' (some c)) ([].head?.or following) inside
  refine ⟨?_, ?_, after⟩
  · intro p listed
    simp only [rolesBefore, List.head?_cons, Option.some_or, read, Option.mem_some_iff] at listed
    rw [← listed]
    simp
  · simp only [rolesBefore, List.head?_cons, Option.some_or, read, contents_skipped, role]
    rfl

theorem reads_block {inner : List Char} (starless : '*' ∉ inner) :
    Reads Between (['/', '*'] ++ (inner ++ ['*', '/'])) [] (· = .between false) := by
  have begins : Reads Between ['/', '*'] [] (· = .block false) := by
    apply reads_opening
    intro lineStart
    refine ⟨.blockOpening, ?_, fun s next region => ?_⟩
    · cases lineStart <;> decide
    · simp [ReadState.read, region]
  have body : Reads (· = .block false) inner [] (· = .block false) := by
    apply reads_inside
    intro c listed s next region
    have other : c ≠ '*' := fun same => starless (same ▸ listed)
    simp [ReadState.read, region, other]
  have star : Reads (· = .block false) ['*'] [] (· = .block true) :=
    reads_skipped fun s next region => by simp [ReadState.read, region]
  have slash : Reads (· = .block true) ['/'] [] (· = .between false) :=
    reads_skipped fun s next region => by simp [ReadState.read, region]
  exact begins.append (body.append (star.append slash))

theorem reads_line {inner : List Char} (unbroken : '\n' ∉ inner) :
    Reads Between (['/', '/'] ++ inner) [] (· = .lineComment) := by
  have begins : Reads Between ['/', '/'] [] (· = .lineComment) := by
    apply reads_opening
    intro lineStart
    refine ⟨.lineComment, ?_, fun s next region => ?_⟩
    · cases lineStart <;> decide
    · simp [ReadState.read, region]
  refine begins.append (reads_inside ?_)
  intro c listed s next region
  have inside : c ≠ '\n' := fun same => unbroken (same ▸ listed)
  simp [ReadState.read, region, inside]

theorem run_after_concat (s : ReadState) (x : List Char) (c : Char) (following : Option Char) :
    (s.after (x ++ [c]) following).run = (s.after x (some c)).run.extend c := by
  rw [ReadState.after_append]
  rfl

theorem Comment.reads {text comment : List Char} (stands : Comment text comment) {s : ReadState}
    (between : Between s.region) (following : Option Char) :
    (∀ p ∈ (rolesBefore following s comment).head?, p.2 ≠ .continues) ∧
      contents (rolesBefore following s comment) = [] ∧
      Passing (s.after comment following).region ∧
      Agree text ⟨.between false, .empty⟩ (s.after comment following) := by
  cases stands with
  | block inner breaks starless solid =>
    have spaces : ∀ c ∈ blankLines breaks, isSpace c := by
      intro c listed
      rw [List.eq_of_mem_replicate listed]
      decide
    have whole := (reads_block starless).append
      ((reads_spaces_between spaces).mono (fun r same => ⟨false, same⟩) fun _ between => between)
    rw [List.append_assoc, List.append_assoc] at whole
    obtain ⟨fresh, none, last⟩ := whole s following between
    refine ⟨fresh, none, .inl last, ?_⟩
    have run : (s.after (['/', '*'] ++ (inner ++ (['*', '/'] ++ blankLines breaks)))
        following).run = .empty := by
      rcases Nat.eq_zero_or_pos breaks with zero | some
      · have parts : ['/', '*'] ++ (inner ++ (['*', '/'] ++ blankLines breaks)) =
            ('/' :: '*' :: inner ++ ['*']) ++ ['/'] := by simp [blankLines, zero]
        rw [parts, run_after_concat]
        rfl
      · have parts : ['/', '*'] ++ (inner ++ (['*', '/'] ++ blankLines breaks)) =
            (['/', '*'] ++ (inner ++ (['*', '/'] ++ blankLines (breaks - 1)))) ++ ['\n'] := by
          have more : blankLines breaks = blankLines (breaks - 1) ++ ['\n'] := by
            rw [blankLines, blankLines, ← List.replicate_succ']
            congr 1
            omega
          simp [more]
        rw [parts, run_after_concat]
        rfl
    rcases solid with zero | solid
    · subst zero
      obtain ⟨_, _, ends⟩ := (reads_block starless) s following between
      rw [blankLines, List.replicate_zero, List.append_nil] at run ⊢
      refine .same ?_
      rw [← ends, ← run]
    · exact .between ⟨false, rfl⟩ last run.symm solid
  | line inner unbroken spacing =>
    obtain ⟨fresh, none, last⟩ := reads_line unbroken s following between
    exact ⟨fresh, none, .inr last, .passing (.inl ⟨false, rfl⟩) (.inr last) spacing⟩

theorem Comment.head {text comment : List Char} (stands : Comment text comment) :
    comment.head? = some '/' := by
  cases stands <;> rfl

def outside (es : List Edit) (t : Token) : Bool :=
  es.all fun e => t.start < e.start || e.stop ≤ t.start

def among (d : Declaration) (t : Token) : Bool := d.start ≤ t.start && t.start < d.stop

theorem outside_eq {es : List Edit} {ds : List Declaration}
    (spans : es.map Edit.span = ds.map Declaration.span) (t : Token) :
    outside es t = ds.all fun d => !among d t := by
  have same : ∀ d : Declaration, (!among d t) =
      (decide (t.start < d.start) || decide (d.stop ≤ t.start)) := by
    intro d
    simp [among, Bool.not_and, ← decide_not]
  have edits : outside es t = (es.map Edit.span).all fun span =>
      t.start < span.1 || span.2 ≤ t.start := by
    rw [List.all_map]
    rfl
  rw [edits, spans, List.all_map]
  congr 1
  funext d
  exact (same d).symm

/-- An edit that makes a comment of a statement: no slash ends where it begins, and the comment
    stands for no tokens. -/
structure Commented (before old after new : List Char) : Prop where
  statement : Statement before old after
  slash : ¬EndsInSlash before (some 'u')
  comment : Comment after new

/-- A declaration that no slash ends at can become any comment that stands for no tokens. -/
theorem commented_of_declared {before old after new : List Char} {d : Declaration}
    (declared : d ∈ declarations (before ++ old ++ after)) (first : d.start = byteLength before)
    (last : d.stop = d.start + byteLength old)
    (free : ∀ t ∈ tokens (before ++ old ++ after), t.isPunct '/' → t.stop ≠ d.start)
    (comment : Comment (d.after (before ++ old ++ after)) new) : Commented before old after new := by
  have statement := declaration_statement declared first last
  rw [Declaration.after_between first last] at comment
  refine ⟨statement, fun slash => ?_, comment⟩
  obtain ⟨t, listed, mark, stop⟩ := statement.slash slash
  exact free t listed mark (stop.trans first.symm)

theorem after_fresh {s : ReadState} (passing : Passing s.region) (x : List Char) :
    ∀ p ∈ (roles s x).head?, p.2 ≠ .continues := by
  intro p first
  cases x with
  | nil => cases first
  | cons c x =>
    cases first
    rcases passing with ⟨lineStart, region⟩ | region
    · exact ReadState.read_fresh c _ (by rw [region]; simp) (by rw [region]; simp)
    · exact ReadState.read_fresh c _ (by rw [region]; simp) (by rw [region]; simp)

theorem Agree.between_letter {s s' : ReadState} {x : List Char} (agree : Agree ('u' :: x) s s')
    (between : Between s.region) : Between s'.region := by
  cases agree with
  | same same => exact same ▸ between
  | between first last run solid => exact last
  | passing first last spacing =>
    have spaced : isSpacing 'u' := spacing 'u' (by simp [restOfLine])
    exact absurd spaced (by decide)

theorem gather_statement {gap old after : List Char} {s : ReadState} (position : Nat)
    (between : Between (s.after gap (some 'u')).region)
    (ends : s.after (gap ++ 'u' :: old) after.head? = ⟨.between false, .empty⟩) :
    gather position (roles s (gap ++ 'u' :: old ++ after)) =
      gather position (rolesBefore (some 'u') s gap) ++
        (gather (position + byteLength gap)
            (rolesBefore after.head? (s.after gap (some 'u')) ('u' :: old)) ++
          gather (position + byteLength gap + byteLength ('u' :: old))
            (roles ⟨.between false, .empty⟩ after)) := by
  have begins := after_fresh (.inl between) ('u' :: old ++ after)
  have again := after_fresh (s := ⟨.between false, .empty⟩) (.inl ⟨false, rfl⟩) after
  rw [ReadState.after_append] at ends
  change (s.after gap (some 'u')).after ('u' :: old) after.head? = _ at ends
  have parts : roles s (gap ++ ('u' :: old ++ after)) = rolesBefore (some 'u') s gap ++
      roles (s.after gap (some 'u')) ('u' :: old ++ after) := roles_append _ _ _
  rw [List.append_assoc, parts, gather_append _ _ _ begins, map_fst_rolesBefore, roles_append, ends,
    gather_append _ _ _ again, map_fst_rolesBefore]

theorem contents_comment {gap after comment : List Char} {s : ReadState}
    (stands : Comment after comment) (between : Between (s.after gap (some '/')).region)
    (rest : List Char) :
    contents (roles s (gap ++ (comment ++ rest))) =
      contents (rolesBefore (some '/') s gap) ++
        contents (roles ((s.after gap (some '/')).after comment rest.head?) rest) := by
  obtain ⟨fresh, none, passing, _⟩ := stands.reads between rest.head?
  have head : (comment ++ rest).head? = some '/' := by rw [List.head?_append, stands.head]; rfl
  have later := after_fresh passing rest
  rw [roles_append, head, roles_append, contents_append, contents_append _ _ later, none,
    List.nil_append]
  intro p first
  rw [List.head?_append] at first
  rcases Option.or_eq_some_iff.mp first with here | ⟨_, there⟩
  · exact fresh p here
  · exact later p there

theorem filter_outside {e : Edit} {es : List Edit} {before inner after : List Token}
    (first : ∀ t ∈ before, t.start < e.start)
    (middle : ∀ t ∈ inner, e.start ≤ t.start ∧ t.start < e.stop)
    (last : ∀ t ∈ after, e.stop ≤ t.start) (ordered : ∀ e' ∈ es, e.start ≤ e'.start) :
    (before ++ (inner ++ after)).filter (outside (e :: es)) =
      before ++ after.filter (outside es) := by
  have kept : before.filter (outside (e :: es)) = before := by
    refine List.filter_eq_self.mpr fun t listed => List.all_eq_true.mpr fun e' member => ?_
    have bound := first t listed
    simp only [Bool.or_eq_true, decide_eq_true_eq]
    rcases List.mem_cons.mp member with here | later
    · exact .inl (here ▸ bound)
    · exact .inl (Nat.lt_of_lt_of_le bound (ordered e' later))
  have gone : inner.filter (outside (e :: es)) = [] := by
    refine List.filter_eq_nil_iff.mpr fun t listed all => ?_
    have bounds := middle t listed
    have here := List.all_eq_true.mp all e List.mem_cons_self
    simp only [Bool.or_eq_true, decide_eq_true_eq] at here
    omega
  have same : after.filter (outside (e :: es)) = after.filter (outside es) := by
    refine List.filter_congr fun t listed => ?_
    have bound : (decide (t.start < e.start) || decide (e.stop ≤ t.start)) = true := by
      simp [last t listed]
    rw [outside, List.all_cons, bound, Bool.true_and, outside]
  rw [List.filter_append, List.filter_append, kept, gone, same, List.nil_append]

/-- Edits that make comments of statements delete exactly the tokens of the statements. -/
theorem contents_commented {front text : List Char} {s' : ReadState} {es : List Edit}
    (apart : Apart (byteLength front) text (es.map Edit.span))
    (agree : Agree text (ReadState.start.after front text.head?) s')
    (each : ∀ e ∈ es, ∀ before old after, front ++ text = before ++ old ++ after →
      e.start = byteLength before → e.stop = e.start + byteLength old →
      Commented before old after e.text) :
    contents (roles s' (rewritten (edited (byteLength front) text es))) =
      ((gather (byteLength front) (roles (ReadState.start.after front text.head?) text)).filter
        (outside es)).map Token.content := by
  induction es generalizing front text s' with
  | nil =>
    have alike := (@Agree.after _ s' text [] none none (by rw [List.append_nil]; exact agree)
      (.inl rfl)).1
    rw [rolesBefore_end, rolesBefore_end] at alike
    have all : outside [] = fun _ => true := rfl
    rw [edited, rewritten_untouched, ← alike, all, List.filter_true, content_gather]
  | cons e es ih =>
    obtain ⟨gap, old, after, parts, first, last, tail⟩ := apart
    subst parts
    have start : e.start = byteLength front + byteLength gap := first
    have stop : e.stop = e.start + byteLength old := last
    obtain ⟨⟨⟨rest, letter⟩, between, ends⟩, slash, comment⟩ := each e List.mem_cons_self
      (front ++ gap) old after (by simp) (by rw [byteLength_append]; exact start) stop
    subst letter
    -- The states at the gap, at the statement and after it, all counted from the gap.
    have head : (gap ++ 'u' :: rest ++ after).head? = gap.head?.or (some 'u') := by
      rw [List.append_assoc, List.head?_append]
      rfl
    have ends' : ReadState.start.after (front ++ gap ++ 'u' :: rest) after.head? =
        (ReadState.start.after front (gap.head?.or (some 'u'))).after (gap ++ 'u' :: rest)
          after.head? := by
      rw [List.append_assoc, ReadState.after_append, List.head?_append, Option.or_assoc]
      rfl
    rw [ends'] at ends
    rw [ReadState.after_append] at between
    rw [head] at agree ⊢
    generalize state : ReadState.start.after front (gap.head?.or (some 'u')) = s at *
    have alike : Alike s gap (some 'u') (some '/') := by
      refine .inr ⟨rfl, rfl, fun front' same opens => slash ⟨front ++ front', ?_, ?_⟩⟩
      · rw [same, List.append_assoc]
      · have ahead : gap.head?.or (some 'u') = front'.head?.or (some '/') := by
          rw [same]
          cases front' <;> rfl
        rw [← state, ahead] at opens
        rw [ReadState.after_append]
        exact opens
    rw [List.append_assoc] at agree
    obtain ⟨sameRoles, agree⟩ := agree.after alike
    have between' := agree.between_letter between
    obtain ⟨_, _, _, agree'⟩ := comment.reads between' (rewritten (edited e.stop after es)).head?
    -- What is left of the tokens after the statement, by induction.
    have place : byteLength (front ++ gap ++ 'u' :: rest) = e.stop := by
      rw [byteLength_append, byteLength_append, stop, start]
    have later := @ih (front ++ gap ++ 'u' :: rest) after
      ((s'.after gap (some '/')).after e.text (rewritten (edited e.stop after es)).head?)
      (by rw [place]; exact tail) (by rw [ends', ends]; exact agree') (by
        intro e' listed before old after' parts
        exact each e' (List.mem_cons_of_mem e listed) before old after' (by rw [← parts]; simp))
    rw [place, ends', ends] at later
    have here : e.start ≤ e.stop := by omega
    rw [edited_cons es start stop, rewritten_append, rewritten_untouched, rewritten_cons,
      Piece.new, contents_comment comment between', ← sameRoles, gather_statement _ between ends,
      filter_outside, List.map_append, content_gather]
    · rw [← start, ← stop, ← later]
    · intro t listed
      have bounds := gather_bounds listed
      rw [map_fst_rolesBefore] at bounds
      omega
    · intro t listed
      have bounds := gather_bounds listed
      rw [map_fst_rolesBefore] at bounds
      omega
    · intro t listed
      have bounds := gather_bounds listed
      omega
    · intro e' listed
      have bounds := Apart.later tail (List.mem_map_of_mem (f := Edit.span) listed)
      have ordered : e.stop ≤ e'.start := bounds.1
      omega

end ShaderBench.Shader
