import ShaderBench.Gpu.Rows
import ShaderBench.Proofs.Screen.Shown
import ShaderBench.View.Terminal
/-
Frames drawn into a buffer of another size, as for a while after a change of size. The cells that
buffer, frame and rows have in common get the pixels that belong to them, and the others stay. No
place that is read or written on the way lies outside of the buffer or past the last address.
-/
namespace ShaderBench.Screen
open Preview

namespace Buffer

/-- There is a cell for every place of the grid. -/
def Full (b : Buffer) : Prop := b.next.size = b.width * b.height

def cell? (b : Buffer) (x y : Nat) : Option Cell :=
  if x < b.width ∧ y < b.height then b.next[y * b.width + x]? else none

variable {b : Buffer}

theorem Full.shows (full : b.Full) :
    Shows b.width b.height b.next fun x y => (b.cell? x y).getD Cell.blank := by
  refine ⟨full, fun x y within below => ?_⟩
  have inside : y * b.width + x < b.next.size := by
    rw [full]
    exact place_inside within below
  rw [cell?, if_pos ⟨within, below⟩, Array.getElem?_eq_getElem inside, Option.getD_some]

end Buffer

section Paints
variable {paint : Paint} {b b' : Buffer} (paints : Paints paint b b')
include paints

theorem Paints.width : b'.width = b.width := by rw [paints.rest]

theorem Paints.height : b'.height = b.height := by rw [paints.rest]

theorem Paints.size (full : b.Full) : b'.next.size = b.next.size :=
  (paints.cells _ full.shows).size.trans full.symm

theorem Paints.full (full : b.Full) : b'.Full := by
  rw [Buffer.Full, paints.size full, paints.width, paints.height]
  exact full

theorem Paints.cell? (full : b.Full) (x y : Nat) :
    b'.cell? x y =
      if x < b.width ∧ y < b.height then (paint x y).or (b.cell? x y) else .none := by
  rw [Buffer.cell?, paints.width, paints.height]
  split
  · rename_i inside
    rw [(paints.cells _ full.shows).cell x y inside.1 inside.2, Paint.over]
    cases painted : paint x y with
    | some cell => rfl
    | none =>
      have here := full.shows.cell x y inside.1 inside.2
      rw [Option.getD_none, Option.none_or, ← here, Buffer.cell?, if_pos inside]
  · rfl

end Paints

theorem full_run (width height : Nat) (screen : Picture) (acts : List Act) :
    (acts.foldl Stage.step ⟨.blank width height, screen⟩).buffer.Full := by
  have follows := (follows_start width height screen).run acts
  rw [Buffer.Full, follows.width, follows.height]
  exact follows.next.size

/- The pixels of a frame. -/

/-- The pixel at a place of a frame has a color: rows from the top, four bytes a pixel. -/
structure HasPixel (f : Frame) (x y : Nat) (c : Color) : Prop where
  column : x < f.size.width
  row : y < f.size.height
  red : f.pixels[(y * f.size.width + x) * 4]? = some c.red
  green : f.pixels[(y * f.size.width + x) * 4 + 1]? = some c.green
  blue : f.pixels[(y * f.size.width + x) * 4 + 2]? = some c.blue

section Pixels
variable {f : Frame} (whole : f.pixels.size = f.size.width * f.size.height * 4)
include whole

theorem hasPixel_color {x y : Nat} (column : x < f.size.width) (row : y < f.size.height) :
    HasPixel f x y (f.color x y) := by
  have inside := place_inside column row
  have red := Array.getElem?_eq_getElem
    (show (y * f.size.width + x) * 4 < f.pixels.size by omega)
  have green := Array.getElem?_eq_getElem
    (show (y * f.size.width + x) * 4 + 1 < f.pixels.size by omega)
  have blue := Array.getElem?_eq_getElem
    (show (y * f.size.width + x) * 4 + 2 < f.pixels.size by omega)
  refine ⟨column, row, ?_, ?_, ?_⟩ <;> simp only [Frame.color, red, green, blue]

theorem color_past {y : Nat} (past : f.size.height ≤ y) (x : Nat) : f.color x y = .black := by
  have outside : f.pixels[(y * f.size.width + x) * 4]? = none := by
    have rows : f.size.height * f.size.width ≤ y * f.size.width :=
      Nat.mul_le_mul_right f.size.width past
    rw [Array.getElem?_eq_none_iff, whole, Nat.mul_comm f.size.width]
    omega
  simp only [Frame.color, outside]

end Pixels

/- Drawing with every place checked: nothing comes of it if a number is no address, or a cell is
   written that is not there. -/

def address? (n : Nat) : Option Nat := if n < UInt64.size then some n else none

def colorAt? (f : Frame) (x y : Nat) : Option Color := do
  let row ← address? (y * f.size.width)
  let pixel ← address? (row + x)
  let start ← address? (pixel * 4)
  let _ ← address? (start + 3)
  some (f.color x y)

namespace Buffer

def write? (b : Buffer) (x y : Nat) (cell : Cell) : Option Buffer :=
  if x < b.width ∧ y < b.height then do
    let row ← address? (y * b.width)
    let place ← address? (row + x)
    if place < b.next.size then some { b with next := b.next.setIfInBounds place cell } else none
  else some b

def drawCell? (b : Buffer) (f : Frame) (x y : Nat) : Option Buffer := do
  let above ← address? (y * 2)
  let below ← address? (above + 1)
  b.write? x y (.pixels (← colorAt? f x above) (← colorAt? f x below))

def drawFrame? (b : Buffer) (f : Frame) (rows : Nat) : Option Buffer :=
  let width := min b.width f.size.width
  let rows := min (min rows b.height) ((f.size.height + 1) / 2)
  (List.range rows).foldlM
    (fun b y => (List.range width).foldlM (fun b x => b.drawCell? f x y) b) b

end Buffer

theorem address?_some {n : Nat} (fits : n < UInt64.size) : address? n = some n := if_pos fits

/-- What is held in memory has no more bytes than the greatest signed number of 64 bits, and a cell
    or a pixel has at least one. The sides of a frame are words of 32 bits. -/
structure Held (b : Buffer) (f : Frame) : Prop where
  cells : b.next.size ≤ Gpu.pictureLimit
  pixels : f.pixels.size ≤ Gpu.pictureLimit
  width : f.size.width < UInt32.size

/-- Past the end of what is held there are addresses for a row of pixels. -/
theorem addresses_left : Gpu.pictureLimit + 4 * UInt32.size ≤ UInt64.size := by decide

section Checked
variable {b : Buffer} {f : Frame} (full : b.Full)
  (whole : f.pixels.size = f.size.width * f.size.height * 4) (held : Held b f)

include whole held in
theorem colorAt?_some {x y : Nat} (column : x < f.size.width) (row : y ≤ f.size.height) :
    colorAt? f x y = some (f.color x y) := by
  have rows : y * f.size.width ≤ f.size.width * f.size.height := by
    rw [Nat.mul_comm f.size.width]
    exact Nat.mul_le_mul_right f.size.width row
  have pixels := held.pixels
  have narrow := held.width
  have left := addresses_left
  have start : (y * f.size.width + x) * 4 + 3 < UInt64.size := by omega
  simp only [colorAt?, Option.bind_eq_bind, Option.bind_some, address?_some start,
    address?_some (show (y * f.size.width + x) * 4 < UInt64.size by omega),
    address?_some (show y * f.size.width + x < UInt64.size by omega),
    address?_some (show y * f.size.width < UInt64.size by omega)]

include full held in
theorem write?_some (x y : Nat) (cell : Cell) : b.write? x y cell = some (b.set x y cell) := by
  have cells := held.cells
  have left := addresses_left
  rw [Buffer.write?, Buffer.set]
  split
  · rename_i inside
    have place := place_inside inside.1 inside.2
    rw [← full] at place
    simp only [Option.bind_eq_bind, Option.bind_some, if_pos place,
      address?_some (show y * b.width + x < UInt64.size by omega),
      address?_some (show y * b.width < UInt64.size by omega)]
  · rfl

include full whole held in
theorem drawCell?_some {x y : Nat} (column : x < f.size.width)
    (row : y < (f.size.height + 1) / 2) :
    b.drawCell? f x y = some (b.set x y (Buffer.frameCell f y x)) := by
  have rows : f.size.height ≤ f.size.width * f.size.height :=
    Nat.le_mul_of_pos_left f.size.height (Nat.zero_lt_of_lt column)
  have pixels := held.pixels
  have left := addresses_left
  have below : y * 2 + 1 < UInt64.size := by omega
  have top := colorAt?_some whole held column (show y * 2 ≤ f.size.height by omega)
  have bottom := colorAt?_some whole held column (show y * 2 + 1 ≤ f.size.height by omega)
  simp only [Buffer.drawCell?, Option.bind_eq_bind, Option.bind_some, address?_some below,
    address?_some (show y * 2 < UInt64.size by omega), top, bottom, write?_some full held]
  rw [Nat.mul_comm y 2]
  rfl

end Checked

theorem Held.painted {paint : Paint} {b b' : Buffer} {f : Frame} (held : Held b f)
    (paints : Paints paint b b') (full : b.Full) : Held b' f :=
  ⟨paints.size full ▸ held.cells, held.pixels, held.width⟩

theorem foldlM_range {step? : Buffer → Nat → Option Buffer} (stage : Nat → Buffer) {n : Nat}
    (steps : ∀ k < n, step? (stage k) k = some (stage (k + 1))) :
    (List.range n).foldlM step? (stage 0) = some (stage n) := by
  induction n with
  | zero => rfl
  | succ n ih =>
    rw [List.range_succ, List.foldlM_append, ih fun k less => steps k (Nat.lt_succ_of_lt less)]
    simp [steps n (Nat.lt_succ_self n)]

theorem setRow_concat (b : Buffer) (x y : Nat) (cells : List Cell) (cell : Cell) :
    b.setRow x y (cells ++ [cell]) = (b.setRow x y cells).set (x + cells.length) y cell := by
  induction cells generalizing b x with
  | nil => rfl
  | cons first rest ih =>
    rw [List.cons_append, Buffer.setRow, Buffer.setRow, ih, List.length_cons]
    congr 1
    omega

section Frames
variable {b : Buffer} {f : Frame} (full : b.Full)
  (whole : f.pixels.size = f.size.width * f.size.height * 4) (held : Held b f)
include full whole held

theorem drawRow?_some {width y : Nat} (columns : width ≤ f.size.width)
    (row : y < (f.size.height + 1) / 2) :
    (List.range width).foldlM (fun b x => b.drawCell? f x y) b =
      some (b.setRow 0 y ((List.range width).map (Buffer.frameCell f y))) := by
  refine foldlM_range (fun n => b.setRow 0 y ((List.range n).map (Buffer.frameCell f y)))
    fun x less => ?_
  have paints := paints_setRow b 0 y ((List.range x).map (Buffer.frameCell f y))
  rw [drawCell?_some (paints.full full) whole (held.painted paints full) (by omega) row,
    List.range_succ, List.map_append, List.map_singleton, setRow_concat, List.length_map,
    List.length_range, Nat.zero_add]

theorem drawFrame?_some (rows : Nat) : b.drawFrame? f rows = some (b.drawFrame f rows) := by
  have columns : min b.width f.size.width ≤ f.size.width := Nat.min_le_right _ _
  rw [Buffer.drawFrame?, Buffer.drawFrame]
  generalize min b.width f.size.width = width at *
  refine foldlM_range (fun n => (List.range n).foldl
    (fun b y => b.setRow 0 y ((List.range width).map (Buffer.frameCell f y))) b) fun y less => ?_
  have paints := paints_rows b f width y
  rw [drawRow?_some (paints.full full) whole (held.painted paints full) columns (by omega),
    List.range_succ, List.foldl_append]
  rfl

end Frames

structure Common (b : Buffer) (f : Frame) (rows x y : Nat) : Prop where
  column : x < b.width
  column' : x < f.size.width
  asked : y < rows
  row : y < b.height
  row' : y < (f.size.height + 1) / 2

/-- The cell of a place shows two pixels, one above the other; below an odd last row of a frame it is
    black. -/
def ShowsPixels (f : Frame) (x y : Nat) (cell : Option Cell) : Prop :=
  ∃ top bottom, cell = some (.pixels top bottom) ∧ HasPixel f x (2 * y) top ∧
    if 2 * y + 1 < f.size.height then HasPixel f x (2 * y + 1) bottom else bottom = .black

/-- For any sizes of buffer, frame and rows, exactly the places that they have in common are drawn,
    with the pixels of the frame that belong to them. All other cells stay, and so does what else
    the buffer has; nothing outside of the buffer or of the memory is touched on the way. In a
    terminal the rows below the picture stay. -/
theorem frame_drawn_exactly {b : Buffer} {f : Frame} (full : b.Full)
    (whole : f.pixels.size = f.size.width * f.size.height * 4) (rows : Nat) :
    b.drawFrame f rows = { b with next := (b.drawFrame f rows).next } ∧
    (b.drawFrame f rows).next.size = b.next.size ∧
    (∀ x y, Common b f rows x y → ShowsPixels f x y ((b.drawFrame f rows).cell? x y)) ∧
    (∀ x y, ¬ Common b f rows x y → (b.drawFrame f rows).cell? x y = b.cell? x y) ∧
    (Held b f → b.drawFrame? f rows = some (b.drawFrame f rows)) ∧
    ∀ t : View.Terminal, t.buffer = b → ∀ x y, t.imageRows ≤ y →
      (t.drawFrame f).buffer.cell? x y = b.cell? x y := by
  have stays : ∀ rows x y, ¬ Common b f rows x y →
      (b.drawFrame f rows).cell? x y = b.cell? x y := by
    intro rows x y apart
    rw [(paints_drawFrame b f rows).cell? full]
    split
    · rename_i inside
      rw [if_neg fun drawn => apart ⟨inside.1, drawn.1, drawn.2.1, inside.2, drawn.2.2⟩,
        Option.none_or]
    · rename_i outside
      rw [Buffer.cell?, if_neg outside]
  have paints := paints_drawFrame b f rows
  refine ⟨paints.rest, paints.size full, ?_, stays rows,
    fun held => drawFrame?_some full whole held rows, ?_⟩
  · intro x y common
    refine ⟨f.color x (2 * y), f.color x (2 * y + 1), ?_, ?_, ?_⟩
    · rw [paints.cell? full, if_pos ⟨common.column, common.row⟩,
        if_pos ⟨common.column', common.asked, common.row'⟩, Option.some_or]
      rfl
    · have row := common.row'
      exact hasPixel_color whole common.column' (by omega)
    · split
      · rename_i inside
        exact hasPixel_color whole common.column' inside
      · rename_i past
        exact color_past whole (Nat.le_of_not_lt past) x
  · intro t same x y below
    rw [View.Terminal.drawFrame, same]
    exact stays t.imageRows x y fun common => Nat.not_lt.mpr below common.asked

theorem frame_drawn_late :
    let b := ([.draw (.text 0 ['a'] .black .black), .resize 3 3 fun _ _ => Cell.blank].foldl
      Stage.step ⟨.blank 2 5, fun _ _ => Cell.blank⟩).buffer
    let f : Frame := ⟨((List.range 24).map UInt8.ofNat).toArray, ⟨2, 3⟩⟩
    b.Full ∧ f.pixels.size = f.size.width * f.size.height * 4 ∧
      (b.drawFrame f 3).cell? 1 1 = some (.pixels ⟨20, 21, 22⟩ .black) ∧
      (b.drawFrame f 3).cell? 2 1 = b.cell? 2 1 ∧ b.drawFrame? f 3 = some (b.drawFrame f 3) := by
  intro b f
  have full : b.Full := full_run 2 5 _ _
  have whole : f.pixels.size = f.size.width * f.size.height * 4 := by decide
  obtain ⟨_, _, drawn, stays, checked, _⟩ := frame_drawn_exactly full whole 3
  refine ⟨full, whole, ?_, ?_, ?_⟩
  · obtain ⟨⟨red, green, blue⟩, bottom, cell, pixel, below⟩ :=
      drawn 1 1 ⟨by decide, by decide, by decide, by decide, by decide⟩
    have first : f.pixels[(2 * 1 * 2 + 1) * 4]? = some 20 := by decide
    have second : f.pixels[(2 * 1 * 2 + 1) * 4 + 1]? = some 21 := by decide
    have third : f.pixels[(2 * 1 * 2 + 1) * 4 + 2]? = some 22 := by decide
    cases pixel.red.symm.trans first
    cases pixel.green.symm.trans second
    cases pixel.blue.symm.trans third
    have black : bottom = .black := below
    rw [cell, black]
    rfl
  · exact stays 2 1 fun common => absurd common.column' (by decide)
  · exact checked ⟨by decide, by decide, by decide⟩

end ShaderBench.Screen
