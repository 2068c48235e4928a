import Mathlib.Data.List.TakeWhile
import ShaderBench.Proofs.Text.Pieces
import ShaderBench.Shader.Token
/-
Reading a text that is put together from parts: the state that each part is entered in, the roles
of its characters, and the tokens of the whole.
-/
namespace ShaderBench.Shader
open Text

attribute [grind =] readBetween readDirective ReadState.read roles gather

/-- The state after a text, when the given character or the end follows it. -/
@[grind =] def ReadState.after : ReadState → List Char → Option Char → ReadState
  | s, [], _ => s
  | s, c :: cs, following => (s.next c (cs.head?.or following)).after cs following

/-- The roles in a text that the given character or the end follows. -/
@[grind =] def rolesBefore (following : Option Char) : ReadState → List Char → List (Char × Role)
  | _, [] => []
  | s, c :: cs =>
    (c, (s.read c (cs.head?.or following)).2) ::
      rolesBefore following (s.next c (cs.head?.or following)) cs

theorem rolesBefore_end (s : ReadState) (cs : List Char) : rolesBefore none s cs = roles s cs := by
  induction cs generalizing s with
  | nil => rfl
  | cons c cs ih => simp only [rolesBefore, roles, Option.or_none, ih]

theorem rolesBefore_append (following : Option Char) (s : ReadState) (x y : List Char) :
    rolesBefore following s (x ++ y) =
      rolesBefore (y.head?.or following) s x ++
        rolesBefore following (s.after x (y.head?.or following)) y := by
  induction x generalizing s with
  | nil => rfl
  | cons c x ih =>
    simp only [List.cons_append, rolesBefore, ReadState.after, List.head?_append, Option.or_assoc,
      ih]

theorem roles_append (s : ReadState) (x y : List Char) :
    roles s (x ++ y) = rolesBefore y.head? s x ++ roles (s.after x y.head?) y := by
  rw [← rolesBefore_end, rolesBefore_append, Option.or_none, rolesBefore_end]

theorem ReadState.after_append (s : ReadState) (x y : List Char) (following : Option Char) :
    s.after (x ++ y) following = (s.after x (y.head?.or following)).after y following := by
  induction x generalizing s with
  | nil => rfl
  | cons c x ih =>
    simp only [List.cons_append, ReadState.after, List.head?_append, Option.or_assoc, ih]

theorem ReadState.after_concat (s : ReadState) (x : List Char) (c : Char)
    (following : Option Char) :
    s.after (x ++ [c]) following = (s.after x (some c)).next c following := by
  rw [ReadState.after_append]
  rfl

@[simp] theorem map_fst_rolesBefore (following : Option Char) (s : ReadState) (cs : List Char) :
    (rolesBefore following s cs).map Prod.fst = cs := by
  induction cs generalizing s with
  | nil => rfl
  | cons c cs ih => simp only [rolesBefore, List.map_cons, ih]

@[simp] theorem map_fst_roles (s : ReadState) (cs : List Char) :
    (roles s cs).map Prod.fst = cs := by
  rw [← rolesBefore_end]
  exact map_fst_rolesBefore none s cs

theorem readBetween_fresh (lineStart : Bool) (c : Char) (next : Option Char) :
    (readBetween lineStart c next).2 ≠ .continues := by
  unfold readBetween
  split_ifs <;> simp

theorem ReadState.read_fresh {s : ReadState} (c : Char) (next : Option Char)
    (word : s.region ≠ .word) (number : ∀ e, s.region ≠ .number e) :
    (s.read c next).2 ≠ .continues := by
  unfold ReadState.read
  split
  · exact readBetween_fresh _ c next
  · rename_i here
    exact absurd here word
  · rename_i e here
    exact absurd here (number e)
  all_goals simp

theorem readBetween_word {lineStart : Bool} {c : Char} {next : Option Char}
    (opens : (readBetween lineStart c next).2 = .opens .ident) :
    startsName c ∧ (readBetween lineStart c next).1 = .word := by
  unfold readBetween at opens ⊢
  split_ifs at opens ⊢ <;> simp_all

theorem ReadState.read_word {s : ReadState} {c : Char} {next : Option Char}
    (opens : (s.read c next).2 = .opens .ident) :
    startsName c ∧ (s.read c next).1 = .word := by
  cases region : s.region with
  | between lineStart =>
    simp only [ReadState.read, region] at opens ⊢
    exact readBetween_word opens
  | word =>
    simp only [ReadState.read, region] at opens ⊢
    by_cases name : continuesName c
    · simp [name] at opens
    · rw [if_neg name] at opens ⊢
      exact readBetween_word opens
  | number afterExponent =>
    simp only [ReadState.read, region] at opens ⊢
    by_cases number : continuesNumber afterExponent s.run c
    · simp [number] at opens
    · rw [if_neg number] at opens ⊢
      exact readBetween_word opens
  | lineComment => simp [ReadState.read, region] at opens
  | blockOpening => simp [ReadState.read, region] at opens
  | block afterStar => simp [ReadState.read, region] at opens
  | quoted escaped => simp [ReadState.read, region] at opens
  | directive continuation => simp [ReadState.read, region] at opens

theorem continuesName_of_startsName {c : Char} (starts : startsName c) : continuesName c := by
  simp only [startsName, continuesName, Char.isAlphanum, Bool.or_eq_true] at starts ⊢
  tauto

theorem continues_name {s : ReadState} (word : s.region = .word) (cs : List Char) :
    ∀ p ∈ (roles s cs).takeWhile (·.2 = .continues), continuesName p.1 := by
  induction cs generalizing s with
  | nil => simp [roles]
  | cons c cs ih =>
    intro p listed
    by_cases name : continuesName c
    · have read : s.read c cs.head? = (.word, .continues) := by
        simp only [ReadState.read, word, if_pos name]
      have region : (s.next c cs.head?).region = .word := by
        simp only [ReadState.next, read]
      simp only [roles, read, List.takeWhile_cons, decide_true, if_true, List.mem_cons] at listed
      rcases listed with here | later
      · subst here
        exact name
      · exact ih region p later
    · have read : s.read c cs.head? = readBetween false c cs.head? := by
        simp only [ReadState.read, word, if_neg name]
      have fresh := readBetween_fresh false c cs.head?
      simp [roles, read, fresh] at listed

/-- The token with its place moved by so many bytes. -/
def Token.moved (bytes : Nat) (t : Token) : Token := { t with start := bytes + t.start }

def Token.span (t : Token) : Nat × Nat := (t.start, t.stop)

def Token.content (t : Token) : TokenKind × List Char := (t.kind, t.text)

@[simp] theorem Token.moved_start (bytes : Nat) (t : Token) :
    (t.moved bytes).start = bytes + t.start := rfl

@[simp] theorem Token.moved_stop (bytes : Nat) (t : Token) :
    (t.moved bytes).stop = bytes + t.stop := Nat.add_assoc _ _ _

@[simp] theorem Token.moved_text (bytes : Nat) (t : Token) : (t.moved bytes).text = t.text := rfl

@[simp] theorem Token.moved_isPunct (bytes : Nat) (t : Token) (c : Char) :
    (t.moved bytes).isPunct c = t.isPunct c := rfl

@[simp] theorem Token.moved_isIdent (bytes : Nat) (t : Token) :
    (t.moved bytes).isIdent = t.isIdent := rfl

@[simp] theorem Token.moved_content (bytes : Nat) (t : Token) :
    (t.moved bytes).content = t.content := rfl

theorem gather_moved (bytes position : Nat) (rs : List (Char × Role)) :
    gather (bytes + position) rs = (gather position rs).map (Token.moved bytes) := by
  induction rs generalizing position with
  | nil => rfl
  | cons p rs ih =>
    obtain ⟨c, role⟩ := p
    have later := ih (position + c.utf8Size)
    rw [← Nat.add_assoc] at later
    cases role with
    | opens kind => simp only [gather, later, List.map_cons, Token.moved]
    | continues => exact later
    | skipped => exact later

theorem takeWhile_continues_append (xs ys : List (Char × Role))
    (fresh : ∀ p ∈ ys.head?, p.2 ≠ .continues) :
    (xs ++ ys).takeWhile (·.2 = .continues) = xs.takeWhile (·.2 = .continues) := by
  induction xs with
  | nil =>
    cases ys with
    | nil => rfl
    | cons p ys => simp [fresh p rfl]
  | cons p xs ih =>
    by_cases on : p.2 = .continues
    · simp [on, ih]
    · simp [on]

/-- No token reaches over a place where none goes on. -/
theorem gather_append (position : Nat) (xs ys : List (Char × Role))
    (fresh : ∀ p ∈ ys.head?, p.2 ≠ .continues) :
    gather position (xs ++ ys) =
      gather position xs ++ gather (position + byteLength (xs.map Prod.fst)) ys := by
  induction xs generalizing position with
  | nil => rfl
  | cons p xs ih =>
    obtain ⟨c, role⟩ := p
    have later := ih (position + c.utf8Size)
    rw [Nat.add_assoc] at later
    cases role with
    | opens kind =>
      simp only [List.cons_append, gather, later, takeWhile_continues_append xs ys fresh,
        List.map_cons, byteLength_cons]
    | continues => exact later
    | skipped => exact later

def contents (rs : List (Char × Role)) : List (TokenKind × List Char) :=
  (gather 0 rs).map Token.content

theorem content_gather (position : Nat) (rs : List (Char × Role)) :
    (gather position rs).map Token.content = contents rs := by
  have moved := gather_moved position 0 rs
  rw [Nat.add_zero] at moved
  rw [moved, List.map_map]
  rfl

theorem contents_append (xs ys : List (Char × Role)) (fresh : ∀ p ∈ ys.head?, p.2 ≠ .continues) :
    contents (xs ++ ys) = contents xs ++ contents ys := by
  rw [contents, gather_append _ _ _ fresh, List.map_append, content_gather (0 + _)]
  rfl

theorem contents_opens (c : Char) (kind : TokenKind) (rs : List (Char × Role)) :
    contents ((c, .opens kind) :: rs) =
      (kind, c :: (rs.takeWhile (·.2 = .continues)).map Prod.fst) :: contents rs := by
  have later := content_gather (0 + c.utf8Size) rs
  rw [← later]
  rfl

theorem contents_continues (c : Char) (rs : List (Char × Role)) :
    contents ((c, .continues) :: rs) = contents rs := content_gather _ rs

theorem contents_skipped (c : Char) (rs : List (Char × Role)) :
    contents ((c, .skipped) :: rs) = contents rs := content_gather _ rs

/-- The tokens of a text lie in it one after the other, also after characters that go on with a
    token. -/
theorem gather_apart_after (position : Nat) (xs ys : List (Char × Role))
    (on : ∀ p ∈ xs, p.2 = .continues) :
    Apart (position + byteLength (xs.map Prod.fst)) (ys.map Prod.fst)
      ((gather position (xs ++ ys)).map Token.span) := by
  induction h : xs ++ ys generalizing position xs ys with
  | nil => trivial
  | cons p rest ih =>
    obtain ⟨c, role⟩ := p
    cases xs with
    | cons q xs =>
      simp only [List.cons_append, List.cons.injEq] at h
      obtain ⟨here, later⟩ := h
      subst here
      have role_eq : role = .continues := on (c, role) List.mem_cons_self
      subst role_eq
      have apart := ih (position + c.utf8Size) xs ys
        (fun p listed => on p (List.mem_cons_of_mem _ listed)) later
      rw [Nat.add_assoc] at apart
      exact apart
    | nil =>
      rw [List.nil_append] at h
      subst h
      cases role with
      | opens kind =>
        have whole : rest.takeWhile (·.2 = .continues) ++ rest.dropWhile (·.2 = .continues) = rest :=
          List.takeWhile_append_dropWhile
        have taken : ∀ p ∈ rest.takeWhile (·.2 = .continues), p.2 = .continues := by
          intro p listed
          have holds := List.mem_takeWhile_imp listed
          exact of_decide_eq_true holds
        have apart := ih (position + c.utf8Size) _ _ taken whole
        refine ⟨[], c :: (rest.takeWhile (·.2 = .continues)).map Prod.fst,
          (rest.dropWhile (·.2 = .continues)).map Prod.fst, ?_, rfl, rfl, ?_⟩
        · rw [List.nil_append, List.cons_append, ← List.map_append, whole]
          rfl
        · rw [Nat.add_assoc] at apart
          exact apart
      | continues =>
        have apart := ih (position + c.utf8Size) [] rest
          (fun p listed => nomatch listed) rfl
        exact Apart.prepend [c] apart
      | skipped =>
        have apart := ih (position + c.utf8Size) [] rest
          (fun p listed => nomatch listed) rfl
        exact Apart.prepend [c] apart

theorem tokens_apart (source : List Char) :
    Apart 0 source ((tokens source).map Token.span) := by
  have apart := gather_apart_after 0 [] (roles .start source)
    (fun p listed => nomatch listed)
  rwa [map_fst_roles] at apart

theorem ident_text {position : Nat} {s : ReadState} {source : List Char} {t : Token}
    (listed : t ∈ gather position (roles s source)) (ident : t.isIdent) :
    ∀ c ∈ t.text, continuesName c := by
  induction source generalizing position s with
  | nil => cases listed
  | cons c source ih =>
    cases role : (s.read c source.head?).2 with
    | opens kind =>
      simp only [roles, role, gather, List.mem_cons] at listed
      rcases listed with here | later
      · subst here
        have kind_eq : kind = .ident := by simpa [Token.isIdent] using ident
        subst kind_eq
        obtain ⟨starts, region⟩ := ReadState.read_word role
        intro d member
        rcases List.mem_cons.mp member with first | after
        · subst first
          exact continuesName_of_startsName starts
        · obtain ⟨p, taken, same⟩ := List.mem_map.mp after
          subst same
          exact continues_name (s := s.next c source.head?) region source p taken
      · exact ih later
    | continues =>
      simp only [roles, role, gather] at listed
      exact ih listed
    | skipped =>
      simp only [roles, role, gather] at listed
      exact ih listed

end ShaderBench.Shader
