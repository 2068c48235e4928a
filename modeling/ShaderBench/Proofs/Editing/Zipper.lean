import Mathlib.Data.List.Chain
import ShaderBench.Editing.Session
/-
The history as a zipper: the documents behind the present one, the present one, and those ahead.
The bounded list with a position in it answers every run of moves as the zipper does.
-/
namespace ShaderBench.Editing.History

inductive Move where
  | commit (document : String)
  | undo
  | redo
  deriving DecidableEq, Repr

/-- A commit tells whether the document is entered, a way through the history where it leads. -/
inductive Reply where
  | entered (new : Bool)
  | reached (document : Option String)
  deriving DecidableEq, Repr

structure Standing where
  current : String
  size : Nat
  canUndo : Bool
  canRedo : Bool
  deriving DecidableEq, Repr

def replies {σ : Type} (move : σ → Move → σ × Reply) (standing : σ → Standing) :
    σ → List Move → List (Reply × Standing)
  | _, [] => []
  | s, m :: ms => ((move s m).2, standing (move s m).1) :: replies move standing (move s m).1 ms

def reachedBy {σ : Type} (move : σ → Move → σ × Reply) (s : σ) (ms : List Move) : σ :=
  ms.foldl (fun s m => (move s m).1) s

def travel (h : History) (way : Option History) : History × Reply :=
  (way.getD h, .reached (way.map current))

def move (h : History) : Move → History × Reply
  | .commit document => (h.commit document, .entered (h.current != document))
  | .undo => h.travel h.undo?
  | .redo => h.travel h.redo?

def standing (h : History) : Standing := ⟨h.current, h.size, h.canUndo, h.canRedo⟩

/-- Past and future both begin next to the present. -/
structure Zipper where
  past : List String
  present : String
  future : List String
  deriving DecidableEq, Repr

namespace Zipper

def start (document : String) : Zipper := ⟨[], document, []⟩

def documents (z : Zipper) : List String := z.past.reverse ++ z.present :: z.future

/-- A new present ends the future; the past keeps its newest entries in the rest of the room. -/
def commit (room : Nat) (z : Zipper) (document : String) : Zipper :=
  if document = z.present then z else ⟨(z.present :: z.past).take (room - 1), document, []⟩

def undo? : Zipper → Option Zipper
  | ⟨[], _, _⟩ => none
  | ⟨document :: past, present, future⟩ => some ⟨past, document, present :: future⟩

def redo? : Zipper → Option Zipper
  | ⟨_, _, []⟩ => none
  | ⟨past, present, document :: future⟩ => some ⟨present :: past, document, future⟩

def travel (z : Zipper) (way : Option Zipper) : Zipper × Reply :=
  (way.getD z, .reached (way.map present))

def move (room : Nat) (z : Zipper) : Move → Zipper × Reply
  | .commit document => (z.commit room document, .entered (document != z.present))
  | .undo => z.travel z.undo?
  | .redo => z.travel z.redo?

def standing (z : Zipper) : Standing :=
  ⟨z.present, z.past.length + 1 + z.future.length, !z.past.isEmpty, !z.future.isEmpty⟩

end Zipper

/-- A history holds the documents of a zipper and stands at its present one. -/
structure Refines (room : Nat) (h : History) (z : Zipper) : Prop where
  entries : h.entries = z.documents
  index : h.index = z.past.length
  depth : h.depth = room

section Refinement
variable {room : Nat} {h : History} {z : Zipper}

theorem length_documents (z : Zipper) :
    z.documents.length = z.past.length + 1 + z.future.length := by
  simp only [Zipper.documents, List.length_append, List.length_reverse, List.length_cons]
  omega

theorem Refines.current (same : Refines room h z) : h.current = z.present := by
  rw [History.current, same.entries, same.index, Zipper.documents]
  simp

theorem Refines.standing (same : Refines room h z) : h.standing = z.standing := by
  have size : h.size = z.past.length + 1 + z.future.length := by
    rw [History.size, same.entries, length_documents]
  have undo : h.canUndo = !z.past.isEmpty := by
    rw [History.canUndo, same.index]
    cases z.past <;> simp
  have redo : h.canRedo = !z.future.isEmpty := by
    rw [History.canRedo, same.index, size]
    cases z.future <;> simp
  rw [History.standing, Zipper.standing, same.current, size, undo, redo]

theorem newest_entered (positive : 0 < room) (z : Zipper) (document : String) :
    History.newest room (z.documents.take (z.past.length + 1) ++ [document]) =
      ((z.present :: z.past).take (room - 1)).reverse ++ [document] := by
  have front : z.documents.take (z.past.length + 1) = (z.present :: z.past).reverse := by
    rw [Zipper.documents, List.reverse_cons, List.append_cons]
    exact List.take_left' (by simp)
  have within : z.past.length + 1 + 1 - room ≤ (z.present :: z.past).reverse.length := by
    simp only [List.length_reverse, List.length_cons]
    omega
  have older : (z.present :: z.past).length - (room - 1) = z.past.length + 1 + 1 - room := by
    simp only [List.length_cons]
    omega
  rw [front, List.reverse_take, older, History.newest, List.length_append, List.length_reverse]
  exact List.drop_append_of_le_length within

theorem Refines.commit (positive : 0 < room) (same : Refines room h z) (document : String) :
    Refines room (h.commit document) (z.commit room document) := by
  rw [History.commit, Zipper.commit, same.current]
  by_cases present : z.present = document
  · rw [if_pos present, if_pos present.symm]
    exact same
  · rw [if_neg present, if_neg (Ne.symm present)]
    have kept := newest_entered positive z document
    constructor
    · simp only [History.enter, same.depth, same.entries, same.index]
      exact kept
    · simp only [History.enter, same.depth, same.entries, same.index, kept]
      simp
    · exact same.depth

theorem Refines.undo? (same : Refines room h z) :
    Option.Rel (Refines room) h.undo? z.undo? := by
  obtain ⟨past, present, future⟩ := z
  have index : h.index = past.length := same.index
  cases past with
  | nil =>
    rw [History.undo?, History.canUndo, index]
    exact .none
  | cons document past =>
    rw [History.undo?, History.canUndo, index]
    simp only [List.length_cons, Nat.zero_lt_succ, decide_true, if_true]
    refine .some ⟨?_, rfl, same.depth⟩
    rw [same.entries]
    simp [Zipper.documents]

theorem Refines.redo? (same : Refines room h z) :
    Option.Rel (Refines room) h.redo? z.redo? := by
  obtain ⟨past, present, future⟩ := z
  have index : h.index = past.length := same.index
  have size : h.size = past.length + 1 + future.length := by
    rw [History.size, same.entries, length_documents]
  cases future with
  | nil =>
    have last : h.canRedo = false := by simp [History.canRedo, index, size]
    rw [History.redo?, last]
    exact .none
  | cons document future =>
    have more : h.canRedo = true := by simp [History.canRedo, index, size]
    rw [History.redo?, more]
    refine .some ⟨?_, congrArg Nat.succ index, same.depth⟩
    rw [same.entries]
    simp [Zipper.documents]

theorem Refines.travel (same : Refines room h z) {way : Option History} {way' : Option Zipper}
    (ways : Option.Rel (Refines room) way way') :
    (h.travel way).2 = (z.travel way').2 ∧ Refines room (h.travel way).1 (z.travel way').1 := by
  cases ways with
  | none => exact ⟨rfl, same⟩
  | some there =>
    refine ⟨?_, there⟩
    rw [History.travel, Zipper.travel, Option.map_some, Option.map_some, there.current]

theorem Refines.move (positive : 0 < room) (same : Refines room h z) (m : Move) :
    (h.move m).2 = (z.move room m).2 ∧ Refines room (h.move m).1 (z.move room m).1 := by
  cases m with
  | commit document =>
    refine ⟨?_, same.commit positive document⟩
    rw [History.move, Zipper.move, same.current, bne_comm]
  | undo => exact same.travel same.undo?
  | redo => exact same.travel same.redo?

theorem Refines.replies (positive : 0 < room) (same : Refines room h z) (ms : List Move) :
    replies History.move History.standing h ms =
      replies (Zipper.move room) Zipper.standing z ms := by
  induction ms generalizing h z with
  | nil => rfl
  | cons m ms ih =>
    obtain ⟨reply, next⟩ := same.move positive m
    rw [History.replies, History.replies, reply, next.standing, ih next]

theorem Refines.reachedBy (positive : 0 < room) (same : Refines room h z) (ms : List Move) :
    Refines room (reachedBy History.move h ms) (reachedBy (Zipper.move room) z ms) := by
  induction ms generalizing h z with
  | nil => exact same
  | cons m ms ih => exact ih (same.move positive m).2

theorem refines_start (initial : String) (depth : Nat) :
    Refines (max depth 1) (.start initial depth) (.start initial) := ⟨rfl, rfl, rfl⟩

end Refinement

namespace Zipper

/-- The documents have room, and no document is entered next to itself. -/
structure Sound (room : Nat) (z : Zipper) : Prop where
  fits : z.documents.length ≤ room
  differ : z.documents.IsChain (· ≠ ·)

variable {room : Nat} {z : Zipper}

theorem sound_start (positive : 0 < room) (document : String) : (start document).Sound room := by
  constructor
  · exact positive
  · exact List.isChain_singleton document

theorem kept_suffix (z : Zipper) (room : Nat) :
    ((z.present :: z.past).take room).reverse <:+ (z.present :: z.past).reverse := by
  rw [List.reverse_take]
  exact List.drop_suffix _ _

theorem Sound.commit (positive : 0 < room) (sound : z.Sound room) (document : String) :
    (z.commit room document).Sound room := by
  unfold Zipper.commit
  split
  · exact sound
  · rename_i other
    constructor
    · simp only [documents, List.length_append, List.length_reverse, List.length_take,
        List.length_singleton]
      omega
    · have front : (z.present :: z.past).reverse.IsChain (· ≠ ·) := by
        have parts := sound.differ
        rw [documents, List.append_cons, ← List.reverse_cons] at parts
        exact List.IsChain.left_of_append parts
      refine (front.suffix (kept_suffix z _)).append (List.isChain_singleton document) ?_
      intro newest last next entered
      cases entered
      -- The newest entry of what is kept of the past is the present.
      rw [List.getLast?_reverse, List.head?_take] at last
      split at last
      · cases last
      · cases last
        exact Ne.symm other

theorem undo?_documents {z' : Zipper} (moved : z.undo? = some z') : z'.documents = z.documents := by
  obtain ⟨past, present, future⟩ := z
  cases past with
  | nil => cases moved
  | cons document past =>
    cases moved
    simp [documents]

theorem redo?_documents {z' : Zipper} (moved : z.redo? = some z') : z'.documents = z.documents := by
  obtain ⟨past, present, future⟩ := z
  cases future with
  | nil => cases moved
  | cons document future =>
    cases moved
    simp [documents]

theorem Sound.travel (sound : z.Sound room) {way : Option Zipper}
    (same : ∀ z', way = some z' → z'.documents = z.documents) : (z.travel way).1.Sound room := by
  cases way with
  | none => exact sound
  | some z' =>
    have documents := same z' rfl
    exact ⟨documents ▸ sound.fits, documents ▸ sound.differ⟩

theorem Sound.move (positive : 0 < room) (sound : z.Sound room) (m : Move) :
    (z.move room m).1.Sound room := by
  cases m with
  | commit document => exact sound.commit positive document
  | undo => exact sound.travel fun _ => undo?_documents
  | redo => exact sound.travel fun _ => redo?_documents

theorem Sound.reachedBy (positive : 0 < room) (sound : z.Sound room) (ms : List Move) :
    (reachedBy (Zipper.move room) z ms).Sound room := by
  induction ms generalizing z with
  | nil => exact sound
  | cons m ms ih => exact ih (sound.move positive m)

end Zipper

/-- Every run of a history gets the replies of a zipper with room for its depth, and leads to where
    the zipper stands. The position is always that of an entry, there are no more entries than the
    depth allows, and no two neighbours are the same. -/
theorem refines_zipper (initial : String) (depth : Nat) (ms : List Move) :
    let room := max depth 1
    let h := reachedBy History.move (.start initial depth) ms
    let z := reachedBy (Zipper.move room) (.start initial) ms
    (History.start initial depth).standing = (Zipper.start initial).standing ∧
      replies History.move History.standing (.start initial depth) ms =
        replies (Zipper.move room) Zipper.standing (.start initial) ms ∧
      h.entries = z.past.reverse ++ z.present :: z.future ∧ h.index = z.past.length ∧
      h.index < h.entries.length ∧ 1 ≤ h.size ∧ h.size ≤ room ∧ h.entries.IsChain (· ≠ ·) := by
  intro room h z
  have positive : 0 < room := Nat.le_max_right depth 1
  have first : Refines room (.start initial depth) (.start initial) := refines_start initial depth
  have same : Refines room h z := first.reachedBy positive ms
  have sound : z.Sound room := (Zipper.sound_start positive initial).reachedBy positive ms
  have size : h.entries.length = z.past.length + 1 + z.future.length := by
    rw [same.entries, length_documents]
  have index : h.index = z.past.length := same.index
  refine ⟨first.standing, first.replies positive ms, same.entries, index, ?_, ?_, ?_, ?_⟩
  · omega
  · rw [History.size]
    omega
  · rw [History.size, same.entries]
    exact sound.fits
  · rw [same.entries]
    exact sound.differ

end ShaderBench.Editing.History
