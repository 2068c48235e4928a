import ShaderBench.Proofs.Param.Carried
/-
The parameters of a document as a fold over its declarations: a name has its place from the first
declaration with a control and all the rest from the last one.
-/
namespace ShaderBench.Param
open Shader

def controlTypes : List String := ["float", "float2", "vec2", "float3", "vec3"]

def isEditable (d : Declaration) : Bool :=
  !isReserved d.name && controlTypes.contains d.typeName

def editable (document : List Char) : List Declaration :=
  (declarations document).filter isEditable

section Declared
variable {seeding : Bool} {d : Declaration} {p : Parameter}

theorem kindOf?_isSome (typeName name : String) :
    ((UniformType.ofName? typeName).bind fun type => kindOf? type name).isSome =
      controlTypes.contains typeName := by
  unfold UniformType.ofName?
  split
  all_goals simp_all [kindOf?, controlTypes]

theorem ofDeclaration?_known (seeding : Bool) (d : Declaration) :
    (ofDeclaration? seeding d).map (fun p => (p.name, p.kind)) =
      if isReserved d.name then none
      else ((UniformType.ofName? d.typeName).bind fun type => kindOf? type d.name).map
        fun kind => (d.name, kind) := by
  cases free : isReserved d.name with
  | true => simp [ofDeclaration?, free]
  | false =>
    cases typed : UniformType.ofName? d.typeName with
    | none => simp [ofDeclaration?, free, typed]
    | some type => exact ofDeclaration?_kind seeding free typed

theorem ofDeclaration?_isSome (seeding : Bool) (d : Declaration) :
    (ofDeclaration? seeding d).isSome = isEditable d := by
  have known := congrArg Option.isSome (ofDeclaration?_known seeding d)
  rw [Option.isSome_map] at known
  rw [known, isEditable, ← kindOf?_isSome d.typeName d.name]
  cases isReserved d.name with
  | true => rfl
  | false =>
    rw [if_neg Bool.false_ne_true, Option.isSome_map]
    rfl

theorem ofDeclaration?_name (made : ofDeclaration? seeding d = some p) : p.name = d.name := by
  have known := ofDeclaration?_known seeding d
  rw [made] at known
  split at known
  · cases known
  · obtain ⟨kind, _, same⟩ := Option.map_eq_some_iff.mp known.symm
    exact (congrArg Prod.fst same).symm

end Declared

theorem names_editable (seeding : Bool) (ds : List Declaration) :
    (ds.filterMap (ofDeclaration? seeding)).map Parameter.name =
      (ds.filter isEditable).map Declaration.name := by
  rw [List.map_filterMap, ← List.filterMap_eq_filter, List.map_filterMap]
  congr 1
  funext d
  have control := ofDeclaration?_isSome seeding d
  cases made : ofDeclaration? seeding d with
  | none =>
    rw [made] at control
    simp [Option.guard, ← control]
  | some p =>
    rw [made] at control
    simp [Option.guard, ← control, ofDeclaration?_name made]

theorem lastNamed_editable (seeding : Bool) (ds : List Declaration) (name : String) :
    lastNamed name ((ds.filterMap (ofDeclaration? seeding)).map fun p => (p.name, p)) =
      (lastNamed name ((ds.filter isEditable).map fun d => (d.name, d))).bind
        (ofDeclaration? seeding) := by
  induction ds with
  | nil => rfl
  | cons d ds ih =>
    have control := ofDeclaration?_isSome seeding d
    cases made : ofDeclaration? seeding d with
    | none =>
      rw [made] at control
      rw [List.filterMap_cons_none made, List.filter_cons_of_neg (by simp [← control]), ih]
    | some p =>
      rw [made] at control
      rw [List.filterMap_cons_some made, List.filter_cons_of_pos control.symm]
      simp only [List.map_cons, lastNamed, ih, ofDeclaration?_name made]
      cases last : lastNamed name ((ds.filter isEditable).map fun d => (d.name, d)) with
      | none =>
        by_cases same : d.name = name
        · simp [same, made]
        · simp [same]
      | some e =>
        -- The later one makes a parameter too, so that this one does not count.
        obtain ⟨e', listed, same⟩ := List.mem_map.mp (lastNamed_listed last)
        cases same
        have made' := ofDeclaration?_isSome seeding e
        rw [(List.mem_filter.mp listed).2] at made'
        obtain ⟨q, made'⟩ := Option.isSome_iff_exists.mp made'
        simp [made']

theorem names_foldl_place (ps : List Parameter) :
    (ps.foldl place []).map Parameter.name = (ps.map Parameter.name).eraseDups := by
  induction ps using List.reverseRecOn with
  | nil => rfl
  | append_singleton ps p ih =>
    rw [List.foldl_append, List.foldl_cons, List.foldl_nil, names_place, ih, List.map_append,
      List.map_singleton, List.eraseDups_append]
    by_cases known : p.name ∈ ps.map Parameter.name
    · rw [if_pos (List.mem_eraseDups.mpr known)]
      simp only [List.removeAll, List.filter_cons, List.elem_iff.mpr known]
      exact (List.append_nil _).symm
    · rw [if_neg (mt List.mem_eraseDups.mp known)]
      have new : (ps.map Parameter.name).elem p.name = false := by simpa using known
      simp only [List.removeAll, List.filter_cons, new]
      rfl

section Extracted
variable {seeding : Bool} {document : List Char} {p : Parameter}

theorem names_extract (seeding : Bool) (document : List Char) :
    (extract seeding document).map Parameter.name =
      ((editable document).map Declaration.name).eraseDups := by
  rw [extract, names_foldl_place, names_editable]
  rfl

theorem extract_from_last (listed : p ∈ extract seeding document) :
    ∃ d, lastNamed p.name ((editable document).map fun d => (d.name, d)) = some d ∧
      ofDeclaration? seeding d = some p := by
  have last := (mem_extract seeding document p).mp listed
  rw [lastNamed_editable] at last
  exact Option.bind_eq_some_iff.mp last

theorem extract_free (listed : p ∈ extract seeding document) : isReserved p.name = false := by
  obtain ⟨d, _, made⟩ := extract_from_last listed
  have control := ofDeclaration?_isSome seeding d
  rw [made, Option.isSome_some, eq_comm, isEditable, Bool.and_eq_true, Bool.not_eq_true'] at control
  rw [ofDeclaration?_name made]
  exact control.1

theorem known_extract (document : List Char) :
    (extract true document).map (fun p => (p.name, p.kind)) =
      (extract false document).map fun p => (p.name, p.kind) := by
  have names : (extract true document).map Parameter.name =
      (extract false document).map Parameter.name := by rw [names_extract, names_extract]
  apply List.ext_getElem
  · simpa using congrArg List.length names
  · -- At each place the last declaration is the same one, for the names are.
    intro i inside inside'
    rw [List.length_map] at inside inside'
    have name : (extract true document)[i].name = (extract false document)[i].name := by
      have same := congrArg (fun names => names[i]?) names
      simpa [inside, inside'] using same
    obtain ⟨d, last, made⟩ := extract_from_last (List.getElem_mem inside)
    obtain ⟨d', last', made'⟩ := extract_from_last (List.getElem_mem inside')
    rw [name, last', Option.some.injEq] at last
    subst last
    have known := (ofDeclaration?_known true d').trans (ofDeclaration?_known false d').symm
    rw [made, made', Option.map_some, Option.map_some, Option.some.injEq] at known
    rw [List.getElem_map, List.getElem_map]
    exact known

end Extracted

/-- The parameters of a document are a fold in which the last declaration of a name wins: each name
    of a declaration with a control stands there once, in the order of the first such declarations,
    and the last one alone makes the parameter. The seeding changes neither names nor kinds. -/
theorem extract_last_wins (document : List Char) :
    (∀ seeding, (extract seeding document).map Parameter.name =
        ((editable document).map Declaration.name).eraseDups ∧
      ((extract seeding document).map Parameter.name).Nodup ∧
      ∀ p ∈ extract seeding document, isReserved p.name = false ∧
        ∃ d, lastNamed p.name ((editable document).map fun d => (d.name, d)) = some d ∧
          ofDeclaration? seeding d = some p) ∧
      (extract true document).map (fun p => (p.name, p.kind)) =
        (extract false document).map fun p => (p.name, p.kind) :=
  ⟨fun seeding => ⟨names_extract seeding document, distinct_extract seeding document,
    fun _ listed => ⟨extract_free listed, extract_from_last listed⟩⟩, known_extract document⟩

end ShaderBench.Param
