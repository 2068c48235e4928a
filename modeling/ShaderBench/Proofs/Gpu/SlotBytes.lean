import ShaderBench.Proofs.Gpu.Packing
import ShaderBench.Proofs.Param.Carried
/-
The bytes of one slot: where they stand in a block, and what they depend on.
-/
namespace ShaderBench.Gpu
open Param

def Slot.cut (s : Slot) (bytes : List UInt8) : List UInt8 :=
  (bytes.drop s.offset).take s.type.size

theorem Follow.behind {position : Nat} {slots : List Slot} (follow : Follow position slots)
    {s : Slot} (listed : s ∈ slots) : position ≤ s.offset := by
  induction slots generalizing position with
  | nil => cases listed
  | cons first rest ih =>
    obtain ⟨behind, later⟩ := follow
    rcases List.mem_cons.mp listed with here | there
    · rw [here]
      exact behind
    · have next := ih later there
      have stop : first.stop = first.offset + first.type.size := rfl
      omega

theorem cut_encodeFrom {position : Nat} {slots : List Slot} (follow : Follow position slots)
    {s : Slot} (listed : s ∈ slots) (ps : List Parameter) (back : List UInt8) :
    ((encodeFrom ps position slots ++ back).drop (s.offset - position)).take s.type.size =
      s.encode ps := by
  -- The bytes before the slot are the gaps and the slots before it, dropped one by one.
  induction slots generalizing position with
  | nil => cases listed
  | cons first rest ih =>
    obtain ⟨behind, later⟩ := follow
    have size := first.length_encode ps
    rw [encodeFrom, List.append_assoc, List.append_assoc]
    rcases List.mem_cons.mp listed with here | there
    · subst here
      rw [List.drop_left' List.length_replicate, List.take_left' size]
    · have next := later.behind there
      have stop : first.stop = first.offset + first.type.size := rfl
      have split : s.offset - position =
          (first.offset - position) + (first.type.size + (s.offset - first.stop)) := by omega
      rw [split, ← List.drop_drop, List.drop_left' List.length_replicate, ← List.drop_drop,
        List.drop_left' size]
      exact ih later there

theorem Layout.Ordered.cut_pack {l : Layout} (ordered : l.Ordered) {s : Slot}
    (listed : s ∈ l.slots) (ps : List Parameter) : s.cut (l.pack ps) = s.encode ps :=
  cut_encodeFrom ordered listed ps _

theorem encodeFrom_congr {ps qs : List Parameter} {slots : List Slot}
    (same : ∀ s ∈ slots, s.encode ps = s.encode qs) (position : Nat) :
    encodeFrom ps position slots = encodeFrom qs position slots := by
  induction slots generalizing position with
  | nil => rfl
  | cons s rest ih =>
    obtain ⟨here, later⟩ := List.forall_mem_cons.mp same
    rw [encodeFrom, encodeFrom, here, ih later]

theorem Layout.pack_congr {l : Layout} {ps qs : List Parameter}
    (same : ∀ s ∈ l.slots, s.encode ps = s.encode qs) : l.pack ps = l.pack qs := by
  rw [pack, pack, encodeFrom_congr same]

/-- A slot takes from the parameters only the value of its name. -/
theorem Slot.encode_congr {s : Slot} {ps qs : List Parameter}
    (same : (named ps s.name).map Parameter.value = (named qs s.name).map Parameter.value) :
    s.encode ps = s.encode qs := by
  unfold Slot.encode
  unfold named at same
  cases found : ps.find? fun p => p.name = s.name with
  | none =>
    rw [found] at same
    have absent := Option.map_eq_none_iff.mp same.symm
    rw [absent]
  | some p =>
    rw [found] at same
    obtain ⟨q, found', value⟩ := Option.map_eq_some_iff.mp same.symm
    rw [found']
    dsimp only
    rw [value]

theorem Slot.encode_absent {s : Slot} {ps : List Parameter} (absent : named ps s.name = none) :
    s.encode ps = List.replicate s.type.size 0 := by
  unfold Slot.encode
  unfold named at absent
  rw [absent]

theorem Slot.encode_named {s : Slot} {ps : List Parameter} {p : Parameter}
    (found : named ps s.name = some p) : s.encode ps = s.type.encode p.value.components := by
  unfold Slot.encode
  unfold named at found
  rw [found]

end ShaderBench.Gpu
