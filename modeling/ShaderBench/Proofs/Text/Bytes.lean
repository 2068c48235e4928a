import Mathlib.Data.List.Basic
import ShaderBench.Text.Bytes
/-
Byte positions of a text that is put together from parts: where the parts begin and end, what a
cut gives back, and stretches that lie one after the other.
-/
namespace ShaderBench.Text

attribute [grind =] cutAt? splitAround?

@[simp] theorem byteLength_nil : byteLength [] = 0 := rfl

@[simp] theorem byteLength_cons (c : Char) (s : List Char) :
    byteLength (c :: s) = c.utf8Size + byteLength s := rfl

@[simp] theorem byteLength_append (s t : List Char) :
    byteLength (s ++ t) = byteLength s + byteLength t := by
  induction s with
  | nil => simp
  | cons c s ih => simp [ih, Nat.add_assoc]

@[simp] theorem newlines_nil : newlines [] = 0 := rfl

@[simp] theorem newlines_append (s t : List Char) :
    newlines (s ++ t) = newlines s + newlines t := List.count_append

@[simp] theorem newlines_cons (c : Char) (s : List Char) :
    newlines (c :: s) = (if c = '\n' then 1 else 0) + newlines s := by
  simp [newlines, List.count_cons, Nat.add_comm]

@[simp] theorem newlines_blankLines (count : Nat) : newlines (blankLines count) = count := by
  simp [newlines, blankLines]

theorem newlines_eq_zero {s : List Char} (unbroken : '\n' ∉ s) : newlines s = 0 :=
  List.count_eq_zero.mpr unbroken

theorem cutAt?_append (a b : List Char) : cutAt? (byteLength a) (a ++ b) = some (a, b) := by
  induction a with
  | nil => cases b <;> rfl
  | cons c a ih =>
    have wide : 0 < c.utf8Size := c.utf8Size_pos
    obtain ⟨n, here⟩ : ∃ n, byteLength (c :: a) = n + 1 := by
      simp only [byteLength_cons]
      exact ⟨c.utf8Size + byteLength a - 1, by omega⟩
    have fits : c.utf8Size ≤ n + 1 := by
      simp only [byteLength_cons] at here
      omega
    have left : n + 1 - c.utf8Size = byteLength a := by
      simp only [byteLength_cons] at here
      omega
    rw [here, List.cons_append, cutAt?, if_pos fits, left, ih]
    rfl

theorem cutAt?_past (a s : List Char) (n : Nat) :
    cutAt? (byteLength a + n) (a ++ s) = (cutAt? n s).map fun cut => (a ++ cut.1, cut.2) := by
  induction a with
  | nil => simp
  | cons c a ih =>
    have wide : 0 < c.utf8Size := c.utf8Size_pos
    obtain ⟨m, here⟩ : ∃ m, byteLength (c :: a) + n = m + 1 := by
      simp only [byteLength_cons]
      exact ⟨c.utf8Size + byteLength a + n - 1, by omega⟩
    have fits : c.utf8Size ≤ m + 1 := by
      simp only [byteLength_cons] at here
      omega
    have left : m + 1 - c.utf8Size = byteLength a + n := by
      simp only [byteLength_cons] at here
      omega
    rw [here, List.cons_append, cutAt?, if_pos fits, left, ih, Option.map_map]
    rfl

theorem slice?_past (a s : List Char) (start stop : Nat) :
    slice? (byteLength a + start) (byteLength a + stop) (a ++ s) = slice? start stop s := by
  have width : byteLength a + stop - (byteLength a + start) = stop - start := by omega
  simp only [slice?, bind, cutAt?_past, width, Nat.add_le_add_iff_left]
  cases cutAt? start s <;> rfl

def Edit.moved (bytes : Nat) (e : Edit) : Edit :=
  { e with start := bytes + e.start, stop := bytes + e.stop }

theorem splice_moved (bytes position : Nat) (s : List Char) (es : List Edit) :
    splice (bytes + position) s (es.map (Edit.moved bytes)) = splice position s es := by
  induction es generalizing position s with
  | nil => rfl
  | cons e es ih =>
    have gap : bytes + e.start - (bytes + position) = e.start - position := by omega
    have width : bytes + e.stop - (bytes + e.start) = e.stop - e.start := by omega
    have later := fun after => ih e.stop after
    rw [List.map_cons, splice, splice]
    simp only [Edit.moved, Nat.add_le_add_iff_left, gap, width] at later ⊢
    simp only [later]

theorem splice_past (a s : List Char) (es : List Edit) :
    splice 0 (a ++ s) (es.map (Edit.moved (byteLength a))) = (splice 0 s es).map (a ++ ·) := by
  cases es with
  | nil => rfl
  | cons e es =>
    have width : byteLength a + e.stop - (byteLength a + e.start) = e.stop - e.start := by omega
    have later := fun after => splice_moved (byteLength a) e.stop after es
    rw [List.map_cons, splice, splice]
    simp only [Edit.moved, Nat.zero_le, Nat.add_le_add_iff_left, true_and, Nat.sub_zero, width,
      cutAt?_past] at later ⊢
    split
    · cases cutAt? e.start s with
      | none => rfl
      | some cut =>
        simp only [Option.map_some, bind, Option.bind_some, later]
        cases cutAt? (e.stop - e.start) cut.2 with
        | none => rfl
        | some gone =>
          simp only [Option.bind_some]
          cases splice e.stop gone.2 es with
          | none => rfl
          | some tail => simp
    · rfl

theorem slice?_append (a m b : List Char) :
    slice? (byteLength a) (byteLength a + byteLength m) (a ++ m ++ b) = some m := by
  have first : cutAt? (byteLength a) (a ++ m ++ b) = some (a, m ++ b) := by
    rw [List.append_assoc]
    exact cutAt?_append a (m ++ b)
  have second : cutAt? (byteLength a + byteLength m - byteLength a) (m ++ b) = some (m, b) := by
    rw [Nat.add_sub_cancel_left]
    exact cutAt?_append m b
  simp only [slice?, bind, Option.bind, first, second]
  exact if_pos (Nat.le_add_right _ _)

theorem splitAround?_eq {word s before after : List Char}
    (found : splitAround? word s = some (before, after)) : s = before ++ word ++ after := by
  induction s generalizing before with
  | nil =>
    unfold splitAround? at found
    split at found
    · rename_i blank
      cases found
      simp [List.isEmpty_iff.mp blank]
    · cases found
  | cons c s ih =>
    unfold splitAround? at found
    split at found
    · rename_i here
      obtain ⟨rest, text⟩ := List.isPrefixOf_iff_prefix.mp here
      cases found
      rw [← text]
      simp
    · obtain ⟨⟨front, back⟩, later, same⟩ := Option.map_eq_some_iff.mp found
      cases same
      rw [ih later]
      simp

theorem splitAround?_isSome {word s before after : List Char}
    (stands : s = before ++ word ++ after) : (splitAround? word s).isSome := by
  induction s generalizing before with
  | nil =>
    simp only [List.nil_eq, List.append_eq_nil_iff] at stands
    simp [splitAround?, stands.1.2]
  | cons c s ih =>
    unfold splitAround?
    split
    · rfl
    · rename_i elsewhere
      cases before with
      | nil =>
        rw [List.nil_append] at stands
        refine absurd ?_ elsewhere
        rw [stands]
        exact List.isPrefixOf_iff_prefix.mpr (List.prefix_append word after)
      | cons d before =>
        simp only [List.cons_append, List.cons.injEq] at stands
        rw [Option.isSome_map]
        exact ih stands.2

/-- More text at the end does not change where a word first stands. -/
theorem splitAround?_append {word s before after : List Char}
    (found : splitAround? word s = some (before, after)) (t : List Char) :
    splitAround? word (s ++ t) = some (before, after ++ t) := by
  induction s generalizing before with
  | nil =>
    unfold splitAround? at found
    split at found
    · rename_i blank
      cases found
      cases List.isEmpty_iff.mp blank
      cases t <;> rfl
    · cases found
  | cons c s ih =>
    have text := splitAround?_eq found
    unfold splitAround? at found
    split at found
    · rename_i here
      obtain ⟨rest, same⟩ := List.isPrefixOf_iff_prefix.mp here
      have still : word.isPrefixOf (c :: s ++ t) :=
        List.isPrefixOf_iff_prefix.mpr (by rw [← same, List.append_assoc]; exact List.prefix_append _ _)
      cases found
      rw [List.cons_append, splitAround?, ← List.cons_append, if_pos still, ← same]
      simp
    · rename_i elsewhere
      obtain ⟨⟨front, back⟩, later, same⟩ := Option.map_eq_some_iff.mp found
      cases same
      have long : word.length ≤ (c :: s).length := by
        rw [text]
        simp
        omega
      have still : ¬ word.isPrefixOf (c :: s ++ t) := by
        intro here
        apply elsewhere
        rw [List.isPrefixOf_iff_prefix] at here ⊢
        exact List.prefix_of_prefix_length_le here (List.prefix_append _ _) long
      rw [List.cons_append, splitAround?, ← List.cons_append, if_neg still, ih later]
      rfl

theorem prefix_line {word line rest : List Char} (unbroken : '\n' ∉ word)
    (begins : word <+: line ++ '\n' :: rest) : word <+: line := by
  induction line generalizing word with
  | nil =>
    cases word with
    | nil => exact List.nil_prefix
    | cons w word =>
      obtain ⟨same, _⟩ := List.cons_prefix_cons.mp begins
      exact absurd List.mem_cons_self (same ▸ unbroken)
  | cons c line ih =>
    cases word with
    | nil => exact List.nil_prefix
    | cons w word =>
      obtain ⟨same, later⟩ := List.cons_prefix_cons.mp begins
      have rest := ih (fun broken => unbroken (List.mem_cons_of_mem w broken)) later
      exact List.cons_prefix_cons.mpr ⟨same, rest⟩

theorem splitAround?_line {word line : List Char} (unbroken : '\n' ∉ word)
    (absent : splitAround? word line = none) (rest : List Char) :
    splitAround? word (line ++ '\n' :: rest) =
      (splitAround? word rest).map fun cut => (line ++ '\n' :: cut.1, cut.2) := by
  induction line with
  | nil =>
    have elsewhere : ¬ word.isPrefixOf ('\n' :: rest) := by
      intro here
      have none := @prefix_line word [] rest unbroken (List.isPrefixOf_iff_prefix.mp here)
      rw [List.prefix_nil.mp none] at absent
      cases absent
    rw [List.nil_append, splitAround?, if_neg elsewhere]
    rfl
  | cons c line ih =>
    unfold splitAround? at absent
    split at absent
    · cases absent
    · rename_i elsewhere
      have elsewhere' : ¬ word.isPrefixOf (c :: (line ++ '\n' :: rest)) := fun here =>
        elsewhere (List.isPrefixOf_iff_prefix.mpr
          (@prefix_line word (c :: line) rest unbroken (List.isPrefixOf_iff_prefix.mp here)))
      rw [List.cons_append, splitAround?, if_neg elsewhere', ih (Option.map_eq_none_iff.mp absent),
        Option.map_map]
      rfl

theorem splitAround?_here (word rest : List Char) :
    splitAround? word (word ++ rest) = some ([], rest) := by
  cases word with
  | nil => cases rest <;> rfl
  | cons w word =>
    have here : (w :: word).isPrefixOf (w :: (word ++ rest)) :=
      List.isPrefixOf_iff_prefix.mpr (List.prefix_append (w :: word) rest)
    rw [List.cons_append, splitAround?, if_pos here, ← List.cons_append, List.drop_left]

end ShaderBench.Text
