import ShaderBench.Screen.Buffer
/-
What drawing does to the cells to be shown next: each way to draw paints its own cells over a
picture, as far as they lie within the buffer, and changes nothing else.
-/
namespace ShaderBench.Screen
open Preview

abbrev Picture := Nat → Nat → Cell

/-- Cells row by row that are those of a picture. -/
structure Shows (width height : Nat) (cells : Array Cell) (picture : Picture) : Prop where
  size : cells.size = width * height
  cell : ∀ x y, x < width → y < height → cells[y * width + x]? = some (picture x y)

abbrev Paint := Nat → Nat → Option Cell

def Paint.over (paint : Paint) (picture : Picture) : Picture :=
  fun x y => (paint x y).getD (picture x y)

/-- From one buffer to the other exactly the cells of a paint were drawn. -/
structure Paints (paint : Paint) (b b' : Buffer) : Prop where
  rest : b' = { b with next := b'.next }
  cells : ∀ picture, Shows b.width b.height b.next picture →
    Shows b.width b.height b'.next (paint.over picture)

theorem Paints.none (b : Buffer) : Paints (fun _ _ => none) b b := ⟨rfl, fun _ shows => shows⟩

theorem Paints.then {paint paint' : Paint} {b b' b'' : Buffer} (first : Paints paint b b')
    (last : Paints paint' b' b'') :
    Paints (fun x y => (paint' x y).or (paint x y)) b b'' := by
  have width : b'.width = b.width := by rw [first.rest]
  have height : b'.height = b.height := by rw [first.rest]
  constructor
  · rw [last.rest, first.rest]
  · intro picture shows
    have both := last.cells _ (width ▸ height ▸ first.cells picture shows)
    rw [width, height] at both
    refine ⟨both.size, fun x y within below => ?_⟩
    rw [both.cell x y within below]
    simp only [Paint.over]
    cases paint' x y <;> rfl

/-- What is painted outside of a buffer makes no difference. -/
theorem Paints.congr {paint paint' : Paint} {b b' : Buffer} (paints : Paints paint b b')
    (same : ∀ x y, x < b.width → y < b.height → paint x y = paint' x y) : Paints paint' b b' := by
  refine ⟨paints.rest, fun picture shows => ⟨(paints.cells picture shows).size, ?_⟩⟩
  intro x y within below
  rw [(paints.cells picture shows).cell x y within below, Paint.over, Paint.over,
    same x y within below]

section Places
variable {width x : Nat} (within : x < width) (y : Nat)
include within

theorem place_column : (y * width + x) % width = x := by
  rw [Nat.mul_comm, Nat.mul_add_mod, Nat.mod_eq_of_lt within]

theorem place_row : (y * width + x) / width = y := by
  rw [Nat.mul_comm, Nat.mul_add_div (Nat.zero_lt_of_lt within), Nat.div_eq_of_lt within,
    Nat.add_zero]

theorem place_inside {y height : Nat} (below : y < height) : y * width + x < width * height := by
  have row : (y + 1) * width ≤ height * width := Nat.mul_le_mul_right width below
  rw [Nat.add_mul, Nat.one_mul] at row
  rw [Nat.mul_comm width height]
  omega

end Places

theorem paints_set (b : Buffer) (x y : Nat) (cell : Cell) :
    Paints (fun x' y' => if x' = x ∧ y' = y then some cell else none) b (b.set x y cell) := by
  by_cases inside : x < b.width ∧ y < b.height
  · rw [Buffer.set, if_pos inside]
    refine ⟨rfl, fun picture shows => ⟨?_, ?_⟩⟩
    · rw [Array.size_setIfInBounds]
      exact shows.size
    · intro x' y' within below
      have place : y * b.width + x < b.next.size :=
        shows.size ▸ place_inside inside.1 inside.2
      rw [Array.getElem?_setIfInBounds, shows.cell x' y' within below, Paint.over]
      by_cases here : x' = x ∧ y' = y
      · rw [if_pos here, if_pos (by rw [here.1, here.2]), if_pos place]
        rfl
      · have elsewhere : y * b.width + x ≠ y' * b.width + x' := by
          intro same
          apply here
          constructor
          · rw [← place_column within y', ← same, place_column inside.1]
          · rw [← place_row within y', ← same, place_row inside.1]
        rw [if_neg here, if_neg elsewhere]
        rfl
  · rw [Buffer.set, if_neg inside]
    refine (Paints.none b).congr fun x' y' within below => ?_
    rw [if_neg]
    rintro ⟨rfl, rfl⟩
    exact inside ⟨within, below⟩

theorem paints_setRow (b : Buffer) (x y : Nat) (cells : List Cell) :
    Paints (fun x' y' => if y' = y ∧ x ≤ x' then cells[x' - x]? else none) b
      (b.setRow x y cells) := by
  induction cells generalizing b x with
  | nil => exact (Paints.none b).congr fun _ _ _ _ => by simp
  | cons cell rest ih =>
    refine ((paints_set b x y cell).then (ih (b.set x y cell) (x + 1))).congr ?_
    intro x' y' _ _
    by_cases row : y' = y
    · simp only [row, true_and, and_true]
      -- A place in the row is before the first cell, there, or at one of the others.
      rcases Nat.lt_trichotomy x' x with before | here | behind
      · rw [if_neg (by omega), if_neg (by omega), if_neg (by omega)]
        rfl
      · subst here
        rw [if_neg (by omega), if_pos rfl, if_pos (Nat.le_refl _), Nat.sub_self]
        rfl
      · have later : x' - x = x' - (x + 1) + 1 := by omega
        rw [if_pos (Nat.succ_le_of_lt behind), if_neg (by omega), if_pos (by omega), later,
          List.getElem?_cons_succ, Option.or_none]
    · simp only [row, false_and, and_false, if_false, Option.or_none]

theorem paints_drawText (b : Buffer) (y : Nat) (text : List Char) (foreground background : Color) :
    Paints (fun x' y' => if y' = y then some (.text (text[x']?.getD ' ') foreground background)
      else none) b (b.drawText y text foreground background) := by
  rw [Buffer.drawText]
  refine (paints_setRow b 0 y _).congr fun x' y' within _ => ?_
  simp only [Nat.zero_le, and_true, Nat.sub_zero]
  split
  · rw [List.getElem?_map, List.getElem?_take_of_lt within, List.getElem?_append]
    split
    · rename_i inside
      rw [List.getElem?_eq_getElem inside]
      rfl
    · rename_i past
      rw [List.getElem?_replicate_of_lt (by omega), List.getElem?_eq_none (by omega)]
      rfl
  · rfl

theorem paints_rows (b : Buffer) (f : Frame) (width n : Nat) :
    Paints (fun x y => if x < width ∧ y < n then some (Buffer.frameCell f y x) else none) b
      ((List.range n).foldl
        (fun b' y => b'.setRow 0 y ((List.range width).map (Buffer.frameCell f y))) b) := by
  induction n with
  | zero => exact (Paints.none b).congr fun x y _ _ => by rw [if_neg (by omega)]
  | succ n ih =>
    rw [List.range_succ, List.foldl_append, List.foldl_cons, List.foldl_nil]
    refine (ih.then (paints_setRow _ 0 n _)).congr fun x y _ _ => ?_
    simp only [Nat.zero_le, and_true, Nat.sub_zero, List.getElem?_map]
    by_cases column : x < width
    · simp only [List.getElem?_range column, column, true_and, Option.map_some]
      rcases Nat.lt_trichotomy y n with above | last | below
      · rw [if_neg (by omega), if_pos above, if_pos (by omega)]
        rfl
      · rw [if_pos last, if_neg (by omega), if_pos (by omega), last]
        rfl
      · rw [if_neg (by omega), if_neg (by omega), if_neg (by omega)]
        rfl
    · have past : (List.range width).length ≤ x := by
        rw [List.length_range]
        omega
      simp only [List.getElem?_eq_none past, column, false_and, if_false, Option.map_none,
        ite_self, Option.or_none]

theorem paints_drawFrame (b : Buffer) (f : Frame) (rows : Nat) :
    Paints (fun x y =>
      if x < f.size.width ∧ y < rows ∧ y < (f.size.height + 1) / 2 then
        some (Buffer.frameCell f y x)
      else none) b (b.drawFrame f rows) := by
  rw [Buffer.drawFrame]
  refine (paints_rows b f _ _).congr fun x y within below => ?_
  congr 1
  apply propext
  omega

end ShaderBench.Screen
