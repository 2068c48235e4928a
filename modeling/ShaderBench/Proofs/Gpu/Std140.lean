import Mathlib.Order.Bounds.Defs
import ShaderBench.Proofs.Gpu.SlotBytes
/-
The places of members by the rules of std140, for any sequence of pushes.
-/
namespace ShaderBench.Gpu

/-- A vector is aligned like its components, their number rounded up to a power of two. -/
def MemberType.baseAlignment (t : MemberType) : Nat := 4 * t.components.nextPowerOfTwo

theorem MemberType.alignment_eq (t : MemberType) : t.alignment = t.baseAlignment := by
  cases t <;> decide +kernel

theorem roundUp_least (n : Nat) {multiple : Nat} (positive : 0 < multiple) :
    IsLeast {k | multiple ∣ k ∧ n ≤ k} (roundUp n multiple) := by
  constructor
  · exact ⟨Nat.dvd_mul_left _ _, le_roundUp n positive⟩
  · rintro k ⟨⟨factor, rfl⟩, above⟩
    rw [roundUp, Nat.mul_comm]
    apply Nat.mul_le_mul_left
    have less : n + multiple - 1 < multiple * (factor + 1) := by
      rw [Nat.mul_succ]
      omega
    exact Nat.lt_succ_iff.mp (Nat.div_lt_of_lt_mul less)

/-- Each slot begins at the first place for its type behind the slot before it, the first slot at
    the first place behind a position. -/
def Placed : Nat → List Slot → Prop
  | _, [] => True
  | position, s :: rest =>
    IsLeast {k | s.type.baseAlignment ∣ k ∧ position ≤ k} s.offset ∧ Placed s.stop rest

theorem placed_append (position : Nat) (slots : List Slot) (s : Slot) :
    Placed position (slots ++ [s]) ↔ Placed position slots ∧
      IsLeast {k | s.type.baseAlignment ∣ k ∧ stopFrom position slots ≤ k} s.offset := by
  induction slots generalizing position with
  | nil => simp [Placed, stopFrom]
  | cons first rest ih =>
    rw [List.cons_append, Placed, ih, Placed, stopFrom_cons, and_assoc]

section Order
variable {position : Nat} {slots : List Slot}

theorem Placed.follow (placed : Placed position slots) : Follow position slots := by
  induction slots generalizing position with
  | nil => trivial
  | cons s rest ih =>
    obtain ⟨here, later⟩ := placed
    exact ⟨here.1.2, ih later⟩

theorem Follow.pairwise (follow : Follow position slots) :
    slots.Pairwise fun s later => s.stop ≤ later.offset := by
  induction slots generalizing position with
  | nil => exact .nil
  | cons s rest ih =>
    obtain ⟨_, later⟩ := follow
    exact .cons (fun _ => later.behind) (ih later)

theorem Follow.le_stop (follow : Follow position slots) : position ≤ stopFrom position slots := by
  induction slots generalizing position with
  | nil => exact Nat.le_refl _
  | cons s rest ih =>
    obtain ⟨behind, later⟩ := follow
    have next := ih later
    have stop : s.stop = s.offset + s.type.size := rfl
    rw [stopFrom_cons]
    omega

theorem Follow.stop_le (follow : Follow position slots) {s : Slot} (listed : s ∈ slots) :
    s.stop ≤ stopFrom position slots := by
  induction slots generalizing position with
  | nil => cases listed
  | cons first rest ih =>
    obtain ⟨_, later⟩ := follow
    rw [stopFrom_cons]
    rcases List.mem_cons.mp listed with here | there
    · rw [here]
      exact later.le_stop
    · exact ih later there

end Order

namespace Layout

def memberOf (s : Slot) : String × MemberType := (s.name, s.type)

theorem contains_push (l : Layout) (name other : String) (type : MemberType) :
    (l.push name type).contains other = (l.contains other || decide (name = other)) := by
  unfold push
  split
  · rename_i known
    by_cases same : name = other
    · simp [← same, known]
    · simp [same]
  · simp [contains]

theorem push_known {l : Layout} {name : String} (known : l.contains name) (type : MemberType) :
    l.push name type = l := if_pos known

theorem members_push {l : Layout} {name : String} (new : l.contains name = false)
    (type : MemberType) : (l.push name type).slots.map memberOf =
      l.slots.map memberOf ++ [(name, type)] := by
  rw [push, new, if_neg Bool.false_ne_true, List.map_append]
  rfl

theorem members_foldl_push (ms : List (String × MemberType)) (l : Layout) :
    (ms.foldl (fun l m => l.push m.1 m.2) l).slots.map memberOf =
      l.slots.map memberOf ++
        (ms.filter fun m => !l.contains m.1).eraseDupsBy fun m first => m.1 == first.1 := by
  induction ms generalizing l with
  | nil => simp
  | cons m ms ih =>
    rw [List.foldl_cons, ih]
    cases known : l.contains m.1 with
    | true => rw [push_known known, List.filter_cons_of_neg (by simp [known])]
    | false =>
      have rest : (ms.filter fun later => !(l.push m.1 m.2).contains later.1) =
          (ms.filter fun later => !l.contains later.1).filter
            fun later => decide ((later.1 == m.1) = false) := by
        rw [List.filter_filter]
        apply List.filter_congr
        intro later _
        rw [contains_push, Bool.not_or, Bool.and_comm]
        by_cases same : m.1 = later.1
        · simp [same]
        · simp [same, Ne.symm same]
      rw [members_push known, List.filter_cons_of_pos (by simp [known]), List.eraseDupsBy_cons,
        rest, List.append_assoc, List.singleton_append]

theorem members_ofPushes (ms : List (String × MemberType)) :
    (ofPushes ms).slots.map memberOf = ms.eraseDupsBy fun m first => m.1 == first.1 := by
  have all : (ms.filter fun m => !empty.contains m.1) = ms := List.filter_eq_self.mpr fun _ _ => rfl
  have pushed := members_foldl_push ms empty
  rw [all] at pushed
  exact pushed

theorem contains_ofPushes (ms : List (String × MemberType)) (name : String) :
    (ofPushes ms).contains name ↔ name ∈ ms.map Prod.fst := by
  suffices every : ∀ l : Layout, (ms.foldl (fun l m => l.push m.1 m.2) l).contains name ↔
      l.contains name ∨ name ∈ ms.map Prod.fst from
    (every empty).trans (or_iff_right Bool.false_ne_true)
  induction ms with
  | nil => simp
  | cons m ms ih =>
    intro l
    rw [List.foldl_cons, ih, contains_push, List.map_cons, List.mem_cons, Bool.or_eq_true,
      decide_eq_true_iff, or_assoc, eq_comm (a := name)]

theorem placed_push (l : Layout) (name : String) (type : MemberType) (placed : Placed 0 l.slots) :
    Placed 0 (l.push name type).slots := by
  unfold push
  split
  · exact placed
  · refine (placed_append 0 l.slots _).mpr ⟨placed, ?_⟩
    dsimp only
    rw [← type.alignment_eq]
    exact roundUp_least l.stop type.alignment_pos

theorem placed_ofPushes (ms : List (String × MemberType)) : Placed 0 (ofPushes ms).slots :=
  ofPushes_kept (P := fun l => Placed 0 l.slots) trivial placed_push ms

theorem size_least {l : Layout} (ordered : l.Ordered) :
    IsLeast {k | 0 < k ∧ 16 ∣ k ∧ ∀ s ∈ l.slots, s.stop ≤ k} l.size := by
  have positive : 0 < 16 := by decide
  have least := roundUp_least (max l.stop 4) positive
  constructor
  · refine ⟨?_, least.1.1, fun s listed => ?_⟩
    · have four := Nat.le_trans (Nat.le_max_right l.stop 4) least.1.2
      exact Nat.lt_of_lt_of_le (by decide) four
    · exact Nat.le_trans (ordered.stop_le listed) l.stop_le_size
  · rintro k ⟨positive, ⟨factor, rfl⟩, behind⟩
    refine least.2 ⟨Nat.dvd_mul_right _ _, Nat.max_le.mpr ⟨?_, by omega⟩⟩
    unfold stop
    cases last : l.slots.getLast? with
    | none => exact Nat.zero_le _
    | some s => exact behind s (List.mem_of_getLast? last)

end Layout

/-- The slots are the members pushed first under their names, each at the first place for its type
    behind the slot before it. No two overlap, the size is the least positive multiple of 16 that
    holds them all, and a push of a name that is taken changes nothing. -/
theorem std140_layout (ms : List (String × MemberType)) :
    let l := Layout.ofPushes ms
    (l.slots.map fun s => (s.name, s.type)) = ms.eraseDupsBy (fun m first => m.1 == first.1) ∧
      Placed 0 l.slots ∧ (l.slots.Pairwise fun s later => s.stop ≤ later.offset) ∧
      IsLeast {k | 0 < k ∧ 16 ∣ k ∧ ∀ s ∈ l.slots, s.stop ≤ k} l.size ∧
      ∀ name type, (l.contains name ↔ name ∈ ms.map Prod.fst) ∧
        (l.contains name → l.push name type = l) := by
  intro l
  have placed : Placed 0 l.slots := Layout.placed_ofPushes ms
  have ordered : l.Ordered := placed.follow
  refine ⟨Layout.members_ofPushes ms, placed, ordered.pairwise, Layout.size_least ordered, ?_⟩
  intro name type
  exact ⟨Layout.contains_ofPushes ms name, fun known => Layout.push_known known type⟩

end ShaderBench.Gpu
