import ShaderBench.Proofs.Screen.Drawing
/-
The screen after every swap. What is listed as changed is drawn over what the screen shows, so it
shows the buffer only if the cells taken to be on it are there; they are from the first swap after
a change of size on, at which all cells are listed.
-/
namespace ShaderBench.Screen
open Preview

def Change.Before (c d : Change) : Prop := c.y < d.y ∨ c.y = d.y ∧ c.x < d.x

theorem place_before (width : Nat) {i j : Nat} (less : i < j) :
    i / width < j / width ∨ i / width = j / width ∧ i % width < j % width := by
  rcases Nat.lt_or_eq_of_le (Nat.div_le_div_right (c := width) (Nat.le_of_lt less)) with row | same
  · exact .inl row
  · have first := Nat.div_add_mod i width
    have last := Nat.div_add_mod j width
    rw [same] at first
    exact .inr ⟨same, by omega⟩

namespace Buffer
variable (b : Buffer)

def changeAt (p : (Cell × Cell) × Nat) : Option Change :=
  if b.redraw || p.1.1 ≠ p.1.2 then some ⟨p.2 % b.width, p.2 / b.width, p.1.1⟩ else none

theorem changesFrom_eq (position : Nat) (pairs : List (Cell × Cell)) :
    b.changesFrom position pairs = (pairs.zipIdx position).filterMap b.changeAt := by
  induction pairs generalizing position with
  | nil => rfl
  | cons pair rest ih =>
    rw [changesFrom, List.zipIdx_cons, List.filterMap_cons, changeAt, ih]
    split <;> rfl

theorem changes_ordered : b.changes.Pairwise Change.Before := by
  have places : ((b.next.toList.zip b.shown.toList).zipIdx).Pairwise (fun p q => p.2 < q.2) := by
    rw [← List.pairwise_map (f := Prod.snd), List.zipIdx_map_snd]
    exact List.pairwise_lt_range'
  rw [changes, changesFrom_eq, List.pairwise_filterMap]
  refine places.imp fun {p q} less c made d made' => ?_
  unfold changeAt at made made'
  split at made
  · split at made'
    · cases made
      cases made'
      exact place_before b.width less
    · cases made'
  · cases made

theorem mem_changes_iff (c : Change) :
    c ∈ b.changes ↔ ∃ i cell old, b.next[i]? = some cell ∧ b.shown[i]? = some old ∧
      (b.redraw = true ∨ cell ≠ old) ∧ c = ⟨i % b.width, i / b.width, cell⟩ := by
  rw [changes, changesFrom_eq, List.mem_filterMap]
  constructor
  · rintro ⟨⟨⟨cell, old⟩, i⟩, listed, made⟩
    rw [List.mem_zipIdx_iff_getElem?, List.getElem?_zip_eq_some] at listed
    unfold changeAt at made
    split at made
    · rename_i differs
      cases made
      exact ⟨i, cell, old, by simpa using listed.1, by simpa using listed.2, by simpa using differs,
        rfl⟩
    · cases made
  · rintro ⟨i, cell, old, next, shown, differs, same⟩
    refine ⟨((cell, old), i), ?_, ?_⟩
    · rw [List.mem_zipIdx_iff_getElem?, List.getElem?_zip_eq_some]
      exact ⟨by simpa using next, by simpa using shown⟩
    · rw [changeAt, if_pos (by simpa using differs), same]

/-- The changes are the cells to be shown next that are not shown already, or all of them. -/
theorem mem_changes {b : Buffer} {picture old : Picture}
    (next : Shows b.width b.height b.next picture) (shown : Shows b.width b.height b.shown old)
    (c : Change) :
    c ∈ b.changes ↔ c.x < b.width ∧ c.y < b.height ∧ c.cell = picture c.x c.y ∧
      (b.redraw = true ∨ c.cell ≠ old c.x c.y) := by
  rw [mem_changes_iff]
  constructor
  · rintro ⟨i, cell, cell', new, before, differs, same⟩
    have inside : i < b.width * b.height := by
      rw [← next.size]
      exact (Array.getElem?_eq_some_iff.mp new).1
    have wide : 0 < b.width := Nat.pos_of_mul_pos_right (Nat.zero_lt_of_lt inside)
    have within : i % b.width < b.width := Nat.mod_lt i wide
    have below : i / b.width < b.height := Nat.div_lt_of_lt_mul inside
    have place : i / b.width * b.width + i % b.width = i := Nat.div_add_mod' i b.width
    have here := next.cell _ _ within below
    have there := shown.cell _ _ within below
    rw [place] at here there
    cases here.symm.trans new
    cases there.symm.trans before
    subst same
    exact ⟨within, below, rfl, differs⟩
  · rintro ⟨within, below, cell, differs⟩
    refine ⟨c.y * b.width + c.x, c.cell, old c.x c.y, ?_, shown.cell _ _ within below, differs, ?_⟩
    · rw [next.cell _ _ within below, cell]
    · rw [place_column within, place_row within]

end Buffer

def Picture.change (screen : Picture) (c : Change) : Picture :=
  fun x y => if x = c.x ∧ y = c.y then c.cell else screen x y

theorem foldl_change {changes : List Change} {screen : Picture} {x y : Nat} {cell : Cell}
    (same : ∀ c ∈ changes, c.x = x → c.y = y → c.cell = cell)
    (drawn : (∃ c ∈ changes, c.x = x ∧ c.y = y) ∨ screen x y = cell) :
    changes.foldl Picture.change screen x y = cell := by
  induction changes generalizing screen with
  | nil => simpa using drawn
  | cons c changes ih =>
    refine ih (fun d later => same d (List.mem_cons_of_mem c later)) ?_
    by_cases here : x = c.x ∧ y = c.y
    · rw [Picture.change, if_pos here]
      exact .inr (same c List.mem_cons_self here.1.symm here.2.symm)
    · rw [Picture.change, if_neg here]
      rcases drawn with ⟨d, listed, place⟩ | before
      · rcases List.mem_cons.mp listed with first | later
        · exact absurd (first ▸ ⟨place.1.symm, place.2.symm⟩) here
        · exact .inl ⟨d, later, place⟩
      · exact .inr before

inductive Drawing where
  | cell (x y : Nat) (content : Cell)
  | text (y : Nat) (chars : List Char) (foreground background : Color)
  | frame (f : Frame) (rows : Nat)

namespace Drawing

def draw : Drawing → Buffer → Buffer
  | .cell x y content, b => b.set x y content
  | .text y chars foreground background, b => b.drawText y chars foreground background
  | .frame f rows, b => b.drawFrame f rows

def paint : Drawing → Paint
  | .cell x y content => fun x' y' => if x' = x ∧ y' = y then some content else none
  | .text y chars foreground background => fun x' y' =>
    if y' = y then some (.text (chars[x']?.getD ' ') foreground background) else none
  | .frame f rows => fun x y =>
    if x < f.size.width ∧ y < rows ∧ y < (f.size.height + 1) / 2 then
      some (.pixels (f.color x (2 * y)) (f.color x (2 * y + 1)))
    else none

theorem paints (d : Drawing) (b : Buffer) : Paints d.paint b (d.draw b) := by
  cases d with
  | cell x y content => exact paints_set b x y content
  | text y chars foreground background => exact paints_drawText b y chars foreground background
  | frame f rows => exact paints_drawFrame b f rows

end Drawing

def lastWritten (drawings : List Drawing) : Picture :=
  fun x y => (drawings.findSome? fun d => d.paint x y).getD Cell.blank

theorem lastWritten_cons (d : Drawing) (drawings : List Drawing) :
    lastWritten (d :: drawings) = d.paint.over (lastWritten drawings) := by
  funext x y
  rw [lastWritten, Paint.over, List.findSome?_cons]
  cases d.paint x y <;> rfl

/-- What happens to a buffer and a screen. A change of size leaves anything on the screen. -/
inductive Act where
  | resize (width height : Nat) (left : Picture)
  | draw (d : Drawing)
  | swap

structure Stage where
  buffer : Buffer
  screen : Picture

def Stage.step (s : Stage) : Act → Stage
  | .resize width height left =>
    { buffer := s.buffer.resize width height
      screen := if width = s.buffer.width ∧ height = s.buffer.height then s.screen else left }
  | .draw d => { s with buffer := d.draw s.buffer }
  | .swap => ⟨s.buffer.present, s.buffer.changes.foldl Picture.change s.screen⟩

/-- What was drawn since the last change of size, the newest first: in all, and up to the last
    swap if there was one. -/
structure Journal where
  width : Nat
  height : Nat
  drawings : List Drawing
  presented : Option (List Drawing)

def Journal.start (width height : Nat) : Journal := ⟨width, height, [], none⟩

def Journal.step (j : Journal) : Act → Journal
  | .resize width height _ =>
    if width = j.width ∧ height = j.height then j else .start width height
  | .draw d => { j with drawings := d :: j.drawings }
  | .swap => { j with presented := some j.drawings }

/-- A buffer and a screen as a journal tells them. -/
structure Follows (j : Journal) (s : Stage) : Prop where
  width : s.buffer.width = j.width
  height : s.buffer.height = j.height
  next : Shows j.width j.height s.buffer.next (lastWritten j.drawings)
  shown : Shows j.width j.height s.buffer.shown (lastWritten (j.presented.getD []))
  redraw : s.buffer.redraw = j.presented.isNone
  screen : ∀ old ∈ j.presented, ∀ x y, x < j.width → y < j.height →
    s.screen x y = lastWritten old x y

theorem follows_start (width height : Nat) (screen : Picture) :
    Follows (.start width height) ⟨.blank width height, screen⟩ := by
  have blank : Shows width height (Array.replicate (width * height) Cell.blank)
      (lastWritten []) := by
    refine ⟨Array.size_replicate, fun x y within below => ?_⟩
    rw [Array.getElem?_replicate, if_pos (place_inside within below)]
    rfl
  exact ⟨rfl, rfl, blank, blank, rfl, fun _ none => by cases none⟩

section Step
variable {j : Journal} {s : Stage} (follows : Follows j s)
include follows

theorem Follows.resize (width height : Nat) (left : Picture) :
    Follows (j.step (.resize width height left)) (s.step (.resize width height left)) := by
  simp only [Journal.step, Stage.step, Buffer.resize, follows.width, follows.height]
  split
  · exact follows
  · exact follows_start width height left

theorem Follows.draw (d : Drawing) : Follows (j.step (.draw d)) (s.step (.draw d)) := by
  have paints := d.paints s.buffer
  have buffer : (s.step (.draw d)).buffer = { s.buffer with next := (d.draw s.buffer).next } :=
    paints.rest
  have next := paints.cells (lastWritten j.drawings) (by
    rw [follows.width, follows.height]
    exact follows.next)
  rw [follows.width, follows.height, ← lastWritten_cons] at next
  constructor
  · rw [buffer]
    exact follows.width
  · rw [buffer]
    exact follows.height
  · exact next
  · rw [buffer]
    exact follows.shown
  · rw [buffer]
    exact follows.redraw
  · exact follows.screen

theorem Follows.mem_changes (c : Change) :
    c ∈ s.buffer.changes ↔ c.x < j.width ∧ c.y < j.height ∧
      c.cell = lastWritten j.drawings c.x c.y ∧
      ∀ old ∈ j.presented, c.cell ≠ lastWritten old c.x c.y := by
  have listed := @Buffer.mem_changes s.buffer (lastWritten j.drawings)
    (lastWritten (j.presented.getD [])) (by
      rw [follows.width, follows.height]
      exact follows.next) (by
      rw [follows.width, follows.height]
      exact follows.shown) c
  rw [listed, follows.width, follows.height, follows.redraw]
  cases j.presented with
  | none => simp
  | some old => simp

theorem Follows.screen_swap {x y : Nat} (within : x < j.width) (below : y < j.height) :
    (s.step .swap).screen x y = lastWritten j.drawings x y := by
  refine foldl_change (fun c listed column row => ?_) ?_
  · rw [(follows.mem_changes c).mp listed |>.2.2.1, column, row]
  · by_cases new : ∀ old ∈ j.presented, lastWritten j.drawings x y ≠ lastWritten old x y
    · exact .inl ⟨⟨x, y, lastWritten j.drawings x y⟩,
        (follows.mem_changes _).mpr ⟨within, below, rfl, new⟩, rfl, rfl⟩
    · -- A cell that is not listed was presented before, so that it is on the screen.
      obtain ⟨old, presented, same⟩ : ∃ old ∈ j.presented,
          lastWritten j.drawings x y = lastWritten old x y := by
        simpa using new
      exact .inr (by rw [follows.screen old presented x y within below, same])

theorem Follows.swap : Follows (j.step .swap) (s.step .swap) := by
  refine ⟨follows.width, follows.height, follows.next, follows.next, rfl, ?_⟩
  intro old same x y within below
  cases same
  exact follows.screen_swap within below

theorem Follows.step (a : Act) : Follows (j.step a) (s.step a) := by
  cases a with
  | resize width height left => exact follows.resize width height left
  | draw d => exact follows.draw d
  | swap => exact follows.swap

theorem Follows.run (acts : List Act) :
    Follows (acts.foldl Journal.step j) (acts.foldl Stage.step s) := by
  induction acts generalizing j s with
  | nil => exact follows
  | cons a acts ih => exact ih (follows.step a)

end Step

/-- At every swap of every run the screen comes to show the cell last written at each place since
    the last change of size. What is drawn for it lies on the grid, in order and nothing twice: all
    cells at the first swap, and after that those that the last one left another cell for. -/
theorem screen_shows_buffer (width height : Nat) (screen : Picture) (acts : List Act) :
    let stage := acts.foldl Stage.step ⟨.blank width height, screen⟩
    let journal := acts.foldl Journal.step (.start width height)
    (∀ x y, x < journal.width → y < journal.height →
      (stage.step .swap).screen x y = lastWritten journal.drawings x y) ∧
    stage.buffer.changes.Pairwise Change.Before ∧
    ∀ c, c ∈ stage.buffer.changes ↔ c.x < journal.width ∧ c.y < journal.height ∧
      c.cell = lastWritten journal.drawings c.x c.y ∧
      ∀ old ∈ journal.presented, c.cell ≠ lastWritten old c.x c.y := by
  have follows := (follows_start width height screen).run acts
  exact ⟨fun x y => follows.screen_swap, Buffer.changes_ordered _, follows.mem_changes⟩

end ShaderBench.Screen
