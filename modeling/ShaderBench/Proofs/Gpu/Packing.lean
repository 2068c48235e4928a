import ShaderBench.Gpu.Compile
/-
The bytes of a block: a layout whose slots follow each other packs parameters into exactly as many
bytes as its buffer has, and every program that is compiled has such a layout.
-/
namespace ShaderBench.Gpu
open Param

/-- Each slot starts behind the one before it, the first one behind a position. -/
def Follow : Nat → List Slot → Prop
  | _, [] => True
  | position, s :: rest => position ≤ s.offset ∧ Follow s.stop rest

def stopFrom (position : Nat) (slots : List Slot) : Nat :=
  (slots.getLast?.map Slot.stop).getD position

theorem stopFrom_cons (position : Nat) (s : Slot) (rest : List Slot) :
    stopFrom position (s :: rest) = stopFrom s.stop rest := by
  cases rest with
  | nil => rfl
  | cons next rest => rfl

theorem follow_append (position : Nat) (slots : List Slot) (s : Slot) :
    Follow position (slots ++ [s]) ↔ Follow position slots ∧ stopFrom position slots ≤ s.offset := by
  induction slots generalizing position with
  | nil => simp [Follow, stopFrom]
  | cons first rest ih =>
    rw [List.cons_append, Follow, ih, Follow, stopFrom_cons, and_assoc]

theorem le_roundUp (n : Nat) {multiple : Nat} (positive : 0 < multiple) :
    n ≤ roundUp n multiple := by
  have split := Nat.div_add_mod (n + multiple - 1) multiple
  have less := Nat.mod_lt (n + multiple - 1) positive
  rw [Nat.mul_comm] at split
  unfold roundUp
  omega

theorem MemberType.alignment_pos (t : MemberType) : 0 < t.alignment := by
  cases t <;> decide

namespace Layout

/-- A layout that is empty or was made by pushes. -/
def Ordered (l : Layout) : Prop := Follow 0 l.slots

theorem ordered_empty : Ordered empty := trivial

theorem Ordered.push {l : Layout} (ordered : l.Ordered) (name : String) (type : MemberType) :
    (l.push name type).Ordered := by
  unfold Layout.push
  split
  · exact ordered
  · exact (follow_append 0 l.slots _).mpr ⟨ordered, le_roundUp l.stop type.alignment_pos⟩

theorem stop_le_size (l : Layout) : l.stop ≤ l.size :=
  Nat.le_trans (Nat.le_max_left l.stop 4) (le_roundUp _ (by decide))

end Layout

def Layout.ofPushes (ms : List (String × MemberType)) : Layout :=
  ms.foldl (fun l m => l.push m.1 m.2) empty

/-- What holds of the empty layout and is kept by a push holds of every layout made by pushes. -/
theorem Layout.ofPushes_kept {P : Layout → Prop} (start : P empty)
    (step : ∀ l name type, P l → P (l.push name type)) (ms : List (String × MemberType)) :
    P (ofPushes ms) := by
  suffices every : ∀ (ms : List (String × MemberType)) (l : Layout), P l →
      P (ms.foldl (fun l m => l.push m.1 m.2) l) from every ms empty start
  intro ms
  induction ms with
  | nil => intro l kept; exact kept
  | cons m ms ih => intro l kept; exact ih _ (step l _ _ kept)

theorem layoutOf_eq (ms : List Member) :
    layoutOf ms = .ofPushes ((lastOfName ms).map fun m => (m.declaration.name, m.type)) := by
  rw [Layout.ofPushes, List.foldl_map, layoutOf]

theorem layoutOf_kept {P : Layout → Prop} (start : P .empty)
    (step : ∀ l name type, P l → P (l.push name type)) (ms : List Member) : P (layoutOf ms) := by
  rw [layoutOf_eq]
  exact Layout.ofPushes_kept start step _

theorem ordered_layoutOf (ms : List Member) : (layoutOf ms).Ordered :=
  layoutOf_kept Layout.ordered_empty (fun _ name type ordered => ordered.push name type) ms

theorem length_flatMap_bytes (xs : List Single) : (xs.flatMap Single.bytes).length = 4 * xs.length := by
  induction xs with
  | nil => rfl
  | cons x xs ih =>
    rw [List.flatMap_cons, List.length_append, ih, List.length_cons]
    have four : x.bytes.length = 4 := rfl
    omega

theorem MemberType.length_encode (t : MemberType) (xs : List Single) :
    (t.encode xs).length = t.size := by
  cases t with
  | int => rfl
  | uint => rfl
  | float | vec2 | vec3 | vec4 =>
    rw [encode, length_flatMap_bytes, List.length_take, List.length_append, List.length_replicate,
      Nat.min_eq_left (Nat.le_add_left _ _)]
    rfl

theorem Slot.length_encode (s : Slot) (ps : List Parameter) :
    (s.encode ps).length = s.type.size := by
  unfold Slot.encode
  split
  · exact MemberType.length_encode _ _
  · exact List.length_replicate

theorem length_encodeFrom {position : Nat} {slots : List Slot} (follow : Follow position slots)
    (ps : List Parameter) :
    position + (encodeFrom ps position slots).length = stopFrom position slots := by
  induction slots generalizing position with
  | nil => rfl
  | cons s rest ih =>
    obtain ⟨behind, later⟩ := follow
    have tail := ih later
    have stop : s.stop = s.offset + s.type.size := rfl
    rw [stopFrom_cons, ← tail, encodeFrom, List.length_append, List.length_append,
      List.length_replicate, s.length_encode ps]
    omega

theorem Layout.Ordered.length_pack {l : Layout} (ordered : l.Ordered) (ps : List Parameter) :
    (l.pack ps).length = l.size := by
  have slots := length_encodeFrom ordered ps
  have stop : stopFrom 0 l.slots = l.stop := rfl
  have within := l.stop_le_size
  rw [pack, List.length_append, List.length_replicate]
  omega

theorem map_ok {ε α β : Type} {x : Except ε α} {f : α → β} {r : β} (done : x.map f = .ok r) :
    ∃ a, x = .ok a ∧ f a = r := by
  cases x with
  | error e => cases done
  | ok a => exact ⟨a, rfl, Except.ok.inj done⟩

theorem eq_ok_of_mem_toOption {ε α : Type} {a : α} :
    ∀ {made : Except ε α}, a ∈ made.toOption → made = .ok a
  | .ok _, mem => congrArg Except.ok (Option.some.inj mem)

theorem ordered_lower {program : List Char} {lowered : Lowered}
    (made : lower program = .ok lowered) : lowered.layout.Ordered := by
  unfold lower at made
  dsimp only at made
  split at made
  · cases made
  · split at made
    · cases made
    · obtain ⟨first, _, same⟩ := map_ok made
      rw [← same]
      exact ordered_layoutOf _

theorem Lowered.translate_layout {translator : Translator} {l : Lowered} {p : Program}
    (made : l.translate translator = .ok p) : p.layout = l.layout := by
  unfold translate at made
  split at made
  · cases made
    rfl
  · cases made
  · cases made
  · cases made

theorem ordered_compile {translator : Translator} {program : List Char} {p : Program}
    (made : compile translator program = .ok p) : p.layout.Ordered := by
  rw [compile] at made
  split at made
  · rename_i lowered found
    rw [Lowered.translate_layout made]
    exact ordered_lower found
  · cases made

/-- A buffer of the right size takes up all bytes that are written to it, and keeps none. -/
theorem Pipeline.write_whole (p : Pipeline) {bytes : List UInt8}
    (fits : bytes.length = p.buffer.length) : (p.write bytes).buffer = bytes := by
  rw [write, ← fits, List.take_length, List.drop_eq_nil_of_le (Nat.le_of_eq fits.symm),
    List.append_nil]

end ShaderBench.Gpu
