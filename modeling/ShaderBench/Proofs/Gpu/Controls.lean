import Mathlib.Data.List.Dedup
import ShaderBench.Proofs.Gpu.Packing
import ShaderBench.Proofs.Gpu.SlotTypes
/-
Slots and their controls. The slots are those of the program's text, the parameters those of the
document, so a slot is without a control where the passes bring a declaration to light that the
document does not have.
-/
namespace ShaderBench.Gpu
open Shader Param Text

def Layout.Distinct (l : Layout) : Prop := (l.slots.map Slot.name).Nodup

theorem Layout.Distinct.push {l : Layout} (distinct : l.Distinct) (name : String)
    (type : MemberType) : (l.push name type).Distinct := by
  unfold Layout.push
  split
  · exact distinct
  · rename_i new
    apply distinct_concat distinct
    intro s listed same
    exact new (List.any_eq_true.mpr ⟨s, listed, decide_eq_true same⟩)

theorem distinct_layoutOf (ms : List Member) : (layoutOf ms).Distinct :=
  layoutOf_kept (List.nodup_nil) (fun _ name type distinct => distinct.push name type) ms

theorem Layout.Distinct.slot? {l : Layout} (distinct : l.Distinct) {s : Slot}
    (listed : s ∈ l.slots) : l.slot? s.name = some s :=
  find?_distinct distinct listed

theorem names_lastOfName (ms : List Member) :
    (lastOfName ms).map (fun m => m.declaration.name) = (ms.map fun m => m.declaration.name).dedup := by
  induction ms with
  | nil => rfl
  | cons m ms ih =>
    rw [lastOfName, List.map_cons]
    by_cases again : ms.any fun later => later.declaration.name = m.declaration.name
    · obtain ⟨later, listed, same⟩ := List.any_eq_true.mp again
      have member : m.declaration.name ∈ ms.map fun m => m.declaration.name :=
        List.mem_map.mpr ⟨later, listed, of_decide_eq_true same⟩
      rw [if_pos again, List.dedup_cons_of_mem member, ih]
    · have absent : m.declaration.name ∉ ms.map fun m => m.declaration.name := by
        intro member
        obtain ⟨later, listed, same⟩ := List.mem_map.mp member
        exact again (List.any_eq_true.mpr ⟨later, listed, decide_eq_true same⟩)
      rw [if_neg again, List.map_cons, List.dedup_cons_of_notMem absent, ih]

theorem names_foldl_push {ms : List Member} {l : Layout}
    (distinct : (l.slots.map Slot.name ++ ms.map fun m => m.declaration.name).Nodup) :
    (ms.foldl (fun l m => l.push m.declaration.name m.type) l).slots.map Slot.name =
      l.slots.map Slot.name ++ ms.map fun m => m.declaration.name := by
  induction ms generalizing l with
  | nil => simp
  | cons m ms ih =>
    have fresh : ¬ l.contains m.declaration.name := by
      intro known
      obtain ⟨s, listed, same⟩ := List.any_eq_true.mp known
      have apart := (List.nodup_append.mp distinct).2.2
      exact apart s.name (List.mem_map_of_mem listed) m.declaration.name List.mem_cons_self
        (of_decide_eq_true same)
    have pushed : (l.push m.declaration.name m.type).slots.map Slot.name =
        l.slots.map Slot.name ++ [m.declaration.name] := by
      rw [Layout.push, if_neg fresh, List.map_append]
      rfl
    rw [List.foldl_cons, ih, pushed, List.append_assoc]
    · rfl
    · rw [pushed, List.append_assoc]
      exact distinct

theorem names_layoutOf (ms : List Member) :
    (layoutOf ms).slots.map Slot.name = (ms.map fun m => m.declaration.name).dedup := by
  rw [layoutOf, names_foldl_push, ← names_lastOfName]
  · rfl
  · change ((lastOfName ms).map fun m => m.declaration.name).Nodup
    rw [names_lastOfName]
    exact List.nodup_dedup _

theorem type_layoutOf {ms : List Member} {s : Slot} (listed : s ∈ (layoutOf ms).slots) :
    lastNamed s.name (ms.map Member.entry) = some s.type := by
  rw [← slot_layoutOf, (distinct_layoutOf ms).slot? listed]
  rfl

/-- Every slot whose type has a control has a parameter of its name. -/
def SlotsControlled (seeding : Bool) (document : List Char) : Prop :=
  ∃ lowered, lower (assemble document) = .ok lowered ∧
    ∀ slot ∈ lowered.layout.slots, slot.type.controlled → ∃ p ∈ extract seeding document,
      p.name = slot.name

theorem mem_layoutOf_assemble {document : List Char} {lowered : Lowered}
    (made : lower (assemble document) = .ok lowered) {slot : Slot}
    (listed : slot ∈ lowered.layout.slots) :
    lastNamed slot.name (shared (body document)) = some slot.type := by
  have distinct : lowered.layout.Distinct := by
    rw [lower_assemble] at made
    rw [← Except.ok.inj made]
    exact distinct_layoutOf _
  rw [← slot_lowered made, distinct.slot? listed]
  rfl

theorem slots_controlled_iff (seeding : Bool) (document : List Char) :
    SlotsControlled seeding document ↔
      ∀ name type, lastNamed name (shared (body document)) = some type → type.controlled →
        ∃ type', lastNamed name (controlled document) = some type' := by
  constructor
  · rintro ⟨lowered, made, each⟩ name type named control
    rw [← slot_lowered made] at named
    obtain ⟨slot, found, same⟩ := Option.map_eq_some_iff.mp named
    have called : slot.name = name := by simpa using List.find?_some found
    obtain ⟨p, listed, same'⟩ := each slot (List.mem_of_find?_eq_some found) (same ▸ control)
    obtain ⟨type', _, named'⟩ := extract_type listed
    exact ⟨type', by rw [← called, ← same', named']⟩
  · intro control
    refine ⟨_, lower_assemble document, ?_⟩
    intro slot listed typed
    have named := mem_layoutOf_assemble (lower_assemble document) listed
    obtain ⟨type', named'⟩ := control slot.name slot.type named typed
    obtain ⟨p, listed', called, _⟩ := extract_named seeding named'
    exact ⟨p, listed', called⟩

/-- The passes bring no declaration with a control to light whose name has none in the document. -/
theorem slots_controlled_known (seeding : Bool) {document : List Char}
    (known : ∀ entry ∈ controlled (body document), ∃ entry' ∈ controlled document,
      entry'.1 = entry.1) :
    SlotsControlled seeding document := by
  rw [slots_controlled_iff]
  intro name type named control
  have listed : (name, type) ∈ controlled (body document) :=
    List.mem_filter.mpr ⟨lastNamed_listed named, control⟩
  obtain ⟨entry', listed', same⟩ := known (name, type) listed
  cases last : lastNamed name (controlled document) with
  | some type' => exact ⟨type', rfl⟩
  | none => exact absurd same (lastNamed_ne last listed')

/-- When every slot is controlled, and that this is so where each declaration with a control in the
    program has the name of one in the document. -/
theorem slots_controlled_exactly (seeding : Bool) (document : List Char) :
    (SlotsControlled seeding document ↔
      ∀ name type, lastNamed name (shared (body document)) = some type → type.controlled →
        ∃ type', lastNamed name (controlled document) = some type') ∧
    ((∀ entry ∈ controlled (body document), ∃ entry' ∈ controlled document,
        entry'.1 = entry.1) → SlotsControlled seeding document) :=
  ⟨slots_controlled_iff seeding document, slots_controlled_known seeding⟩

theorem slots_controlled_coerced :
    SlotsControlled false "uniform float gain = 0;\nuniform float3 tint;\nuniform int n;\n".toList :=
  (slots_controlled_exactly false _).2 (by decide +kernel)

theorem slot_uncontrolled :
    ¬ SlotsControlled false "uniform float gain : TEXCOORD0;\n".toList := by
  intro every
  have lowered : lastNamed "gain" (shared (body "uniform float gain : TEXCOORD0;\n".toList)) =
      some .float := by
    decide +kernel
  have none : controlled "uniform float gain : TEXCOORD0;\n".toList = [] := by decide +kernel
  obtain ⟨type, named⟩ := (slots_controlled_iff false _).mp every "gain" .float lowered rfl
  rw [none] at named
  cases named

end ShaderBench.Gpu
