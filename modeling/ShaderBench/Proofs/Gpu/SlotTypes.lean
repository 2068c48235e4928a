import ShaderBench.Proofs.Gpu.Lowering
import ShaderBench.Proofs.Param.Extraction
/-
The types of parameters and of their slots. A parameter has the type of its last declaration with a
control, a slot that of the last declaration which can be a member, and the two declarations are
looked for in different texts.
-/
namespace ShaderBench.Gpu
open Shader Param Text

def Layout.slot? (l : Layout) (name : String) : Option Slot := l.slots.find? fun s => s.name = name

def MemberType.ofKind? : Kind → Option MemberType
  | .scalar => some .float
  | .vector2 => some .vec2
  | .vector3 | .color => some .vec3
  | .boolean => none

def MemberType.controlled : MemberType → Bool
  | .float | .vec2 | .vec3 => true
  | .vec4 | .int | .uint => false

/-- The name and the type of a declaration that can become a member. -/
def shared? (d : Declaration) : Option (String × MemberType) :=
  if isReserved d.name then none
  else ((UniformType.ofName? d.typeName).bind MemberType.ofUniform?).map fun type => (d.name, type)

def shared (source : List Char) : List (String × MemberType) :=
  (declarations source).filterMap shared?

def controlled (source : List Char) : List (String × MemberType) :=
  (shared source).filter fun entry => entry.2.controlled

def Member.entry (m : Member) : String × MemberType := (m.declaration.name, m.type)

theorem Layout.push_slot (l : Layout) (other name : String) (type : MemberType) :
    ((l.push other type).slot? name).map Slot.type =
      ((l.slot? name).map Slot.type).or (if other = name then some type else none) := by
  unfold Layout.push Layout.slot?
  by_cases known : l.contains other
  · rw [if_pos known]
    by_cases same : other = name
    · subst same
      obtain ⟨slot, found⟩ : ∃ slot, (l.slots.find? fun s => s.name = other) = some slot := by
        rw [← Option.isSome_iff_exists, List.find?_isSome]
        exact List.any_eq_true.mp known
      simp [found]
    · simp [same]
  · rw [if_neg known, List.find?_append, Option.map_or]
    by_cases same : other = name
    · simp [same]
    · simp [same]

theorem foldl_push_slot (ms : List Member) (l : Layout) (name : String) :
    ((ms.foldl (fun l m => l.push m.declaration.name m.type) l).slot? name).map Slot.type =
      ((l.slot? name).map Slot.type).or
        ((ms.find? fun m => m.declaration.name = name).map Member.type) := by
  induction ms generalizing l with
  | nil => simp
  | cons m ms ih =>
    rw [List.foldl_cons, ih, Layout.push_slot, Option.or_assoc]
    by_cases same : m.declaration.name = name
    · simp [same]
    · simp [same]

theorem find?_lastOfName (ms : List Member) (name : String) :
    ((lastOfName ms).find? fun m => m.declaration.name = name).map Member.type =
      lastNamed name (ms.map Member.entry) := by
  induction ms with
  | nil => rfl
  | cons m ms ih =>
    simp only [lastOfName, List.map_cons, lastNamed, Member.entry]
    by_cases again : ms.any fun later => later.declaration.name = m.declaration.name
    · rw [if_pos again, ih]
      by_cases same : m.declaration.name = name
      · obtain ⟨later, listed, named⟩ := List.any_eq_true.mp again
        have named' : later.declaration.name = name := by
          rw [of_decide_eq_true named, same]
        cases last : lastNamed name (ms.map Member.entry) with
        | some type => rfl
        | none => exact absurd named' (lastNamed_ne last (List.mem_map_of_mem listed))
      · simp [same]
    · rw [if_neg again]
      by_cases same : m.declaration.name = name
      · have absent : lastNamed name (ms.map Member.entry) = none := by
          apply lastNamed_none
          intro entry listed named
          obtain ⟨later, member, made⟩ := List.mem_map.mp listed
          subst made
          apply again
          exact List.any_eq_true.mpr ⟨later, member, decide_eq_true (named.trans same.symm)⟩
        rw [absent]
        simp [same]
      · simp [same, ih]

/-- A slot has the type of the last member of its name. -/
theorem slot_layoutOf (ms : List Member) (name : String) :
    ((layoutOf ms).slot? name).map Slot.type = lastNamed name (ms.map Member.entry) := by
  rw [layoutOf, foldl_push_slot, find?_lastOfName]
  rfl

theorem entry_membersOf (document : List Char) :
    (membersOf document).map Member.entry = shared (body document) := by
  rw [membersOf, List.map_filterMap, shared]
  congr 1
  funext d
  simp only [member?, shared?, Nat.zero_le, decide_true, Bool.true_and, Declaration.moved]
  cases isReserved d.name with
  | true => rfl
  | false =>
    simp only [Bool.not_false, if_true, Bool.false_eq_true, if_false, Option.map_map]
    rfl

theorem ofDeclaration?_typed (seeding : Bool) (d : Declaration) :
    (ofDeclaration? seeding d).map (fun p => (p.name, MemberType.ofKind? p.kind)) =
      ((shared? d).filter fun entry => entry.2.controlled).map
        fun entry => (entry.1, some entry.2) := by
  cases free : isReserved d.name with
  | true => simp [ofDeclaration?, shared?, free]
  | false =>
    cases typed : UniformType.ofName? d.typeName with
    | none => simp [ofDeclaration?, shared?, free, typed]
    | some type =>
      have kinds := congrArg (Option.map fun pair : String × Kind =>
        (pair.1, MemberType.ofKind? pair.2)) (ofDeclaration?_kind seeding free typed)
      rw [Option.map_map] at kinds
      refine Eq.trans kinds ?_
      simp only [shared?, free, typed, Bool.false_eq_true, if_false, Option.bind_some]
      cases type with
      | float3 =>
        simp only [kindOf?]
        split
        · rfl
        · rfl
      | float => rfl
      | float2 => rfl
      | float4 => rfl
      | int => rfl
      | uint => rfl
      | bool => rfl

theorem typed_parameters (seeding : Bool) (source : List Char) :
    ((declarations source).filterMap (ofDeclaration? seeding)).map
        (fun p => (p.name, MemberType.ofKind? p.kind)) =
      (controlled source).map fun entry => (entry.1, some entry.2) := by
  rw [controlled, shared, List.map_filterMap, List.filter_filterMap, List.map_filterMap]
  congr 1
  funext d
  exact ofDeclaration?_typed seeding d

theorem extract_type {seeding : Bool} {document : List Char} {p : Parameter}
    (listed : p ∈ extract seeding document) :
    ∃ type, MemberType.ofKind? p.kind = some type ∧
      lastNamed p.name (controlled document) = some type := by
  have last := (mem_extract seeding document p).mp listed
  have typed := congrArg (lastNamed p.name) (typed_parameters seeding document)
  rw [lastNamed_map] at typed
  have fields := lastNamed_map p.name (fun q : Parameter => MemberType.ofKind? q.kind)
    (((declarations document).filterMap (ofDeclaration? seeding)).map fun q => (q.name, q))
  rw [List.map_map, last] at fields
  have both := fields.symm.trans typed
  obtain ⟨type, named, same⟩ := Option.map_eq_some_iff.mp both.symm
  exact ⟨type, same.symm, named⟩

theorem extract_named {document : List Char} {name : String} {type : MemberType}
    (seeding : Bool) (named : lastNamed name (controlled document) = some type) :
    ∃ p ∈ extract seeding document, p.name = name ∧ MemberType.ofKind? p.kind = some type := by
  have typed := congrArg (lastNamed name) (typed_parameters seeding document)
  rw [lastNamed_map, named] at typed
  have fields := lastNamed_map name (fun q : Parameter => MemberType.ofKind? q.kind)
    (((declarations document).filterMap (ofDeclaration? seeding)).map fun q => (q.name, q))
  rw [List.map_map] at fields
  obtain ⟨p, last, same⟩ := Option.map_eq_some_iff.mp (fields.symm.trans typed)
  have entry := lastNamed_listed last
  obtain ⟨q, _, made⟩ := List.mem_map.mp entry
  simp only [Prod.mk.injEq] at made
  obtain ⟨called, same'⟩ := made
  subst same'
  refine ⟨q, ?_, called, same⟩
  rw [mem_extract, called]
  exact last

/-- Every parameter of a document has a slot of its own type in the lowered program. -/
def SlotsMatch (seeding : Bool) (document : List Char) : Prop :=
  ∃ lowered, lower (assemble document) = .ok lowered ∧
    ∀ p ∈ extract seeding document, ∃ slot,
      lowered.layout.slot? p.name = some slot ∧ MemberType.ofKind? p.kind = some slot.type

theorem slot_lowered {document : List Char} {lowered : Lowered}
    (made : lower (assemble document) = .ok lowered) (name : String) :
    (lowered.layout.slot? name).map Slot.type = lastNamed name (shared (body document)) := by
  rw [lower_assemble] at made
  rw [← Except.ok.inj made, slot_layoutOf, entry_membersOf]

/-- Parameters and slots match exactly if, for every name, the last declaration with a control in
    the document has the type of the last one in the program that can be a member. -/
theorem slots_match_iff (seeding : Bool) (document : List Char) :
    SlotsMatch seeding document ↔
      ∀ name type, lastNamed name (controlled document) = some type →
        lastNamed name (shared (body document)) = some type := by
  constructor
  · rintro ⟨lowered, made, each⟩ name type named
    obtain ⟨p, listed, called, kind⟩ := extract_named seeding named
    obtain ⟨slot, found, same⟩ := each p listed
    rw [← slot_lowered made, ← called, found, ← kind, same]
    rfl
  · intro last
    refine ⟨_, lower_assemble document, ?_⟩
    intro p listed
    obtain ⟨type, kind, named⟩ := extract_type listed
    have typed := last p.name type named
    rw [← slot_lowered (lower_assemble document)] at typed
    obtain ⟨slot, found, same⟩ := Option.map_eq_some_iff.mp typed
    exact ⟨slot, found, by rw [kind, same]⟩

theorem slots_match_kept (seeding : Bool) {document : List Char}
    (kept : shared (body document) = shared document) :
    SlotsMatch seeding document ↔
      ∀ name type, lastNamed name (shared document) = some type →
        (lastNamed name (controlled document)).isSome → type.controlled := by
  rw [slots_match_iff, kept]
  constructor
  · intro last name type named some
    obtain ⟨type', named'⟩ := Option.isSome_iff_exists.mp some
    have same := last name type' named'
    rw [named] at same
    cases same
    exact (List.mem_filter.mp (lastNamed_listed named')).2
  · intro control name type named
    have entry := (List.mem_filter.mp (lastNamed_listed named)).1
    cases last : lastNamed name (shared document) with
    | none => exact absurd rfl (lastNamed_ne last entry)
    | some type' =>
      have holds := control name type' last (by rw [named]; rfl)
      have named' := lastNamed_filter (fun entry => entry.2.controlled) last holds
      rw [controlled, named'] at named
      exact named

/-- When parameters and slots match, for any document, and for one whose declarations the passes
    leave as they are. -/
theorem slots_match_exactly (seeding : Bool) (document : List Char) :
    (SlotsMatch seeding document ↔
      ∀ name type, lastNamed name (controlled document) = some type →
        lastNamed name (shared (body document)) = some type) ∧
    (shared (body document) = shared document →
      (SlotsMatch seeding document ↔
        ∀ name type, lastNamed name (shared document) = some type →
          (lastNamed name (controlled document)).isSome → type.controlled)) :=
  ⟨slots_match_iff seeding document, fun kept => slots_match_kept seeding kept⟩

theorem slots_match_vectors :
    SlotsMatch false
      "uniform float a;\nuniform float3 a;\nuniform float2 b;\nuniform float b;\n".toList := by
  refine ((slots_match_exactly false _).2 (by decide +kernel)).mpr ?_
  have each : ∀ entry ∈ shared
      "uniform float a;\nuniform float3 a;\nuniform float2 b;\nuniform float b;\n".toList,
      entry.2.controlled := by decide +kernel
  intro name type named _
  exact each (name, type) (lastNamed_listed named)

theorem slots_mismatch_int : ¬ SlotsMatch false "uniform float a;\nuniform int a;\n".toList := by
  rintro ⟨lowered, made, each⟩
  have scalar : lastNamed "a" (controlled "uniform float a;\nuniform int a;\n".toList) =
      some .float := by decide +kernel
  have integer : lastNamed "a" (shared (body "uniform float a;\nuniform int a;\n".toList)) =
      some .int := by decide +kernel
  obtain ⟨p, listed, called, kind⟩ := extract_named false scalar
  obtain ⟨slot, found, same⟩ := each p listed
  have typed := slot_lowered made "a"
  rw [← called, found, called, integer] at typed
  rw [kind] at same
  have clash : slot.type = .int := Option.some.inj typed
  rw [clash] at same
  cases same

end ShaderBench.Gpu
