import ShaderBench.Proofs.Param.Extraction
/-
Live values by name: what is listed under a name, and what is left of it when the parameters of
another document take over the values.
-/
namespace ShaderBench.Param
open Shader

def named (ps : List Parameter) (name : String) : Option Parameter :=
  ps.find? fun p => p.name = name

def kindNamed (ps : List Parameter) (name : String) : Option Kind :=
  (named ps name).map Parameter.kind

def Distinct (ps : List Parameter) : Prop := (ps.map Parameter.name).Nodup

theorem Distinct.named {ps : List Parameter} (distinct : Distinct ps) {p : Parameter}
    (listed : p ∈ ps) : named ps p.name = some p :=
  find?_distinct distinct listed

theorem named_name {ps : List Parameter} {name : String} {p : Parameter}
    (found : named ps name = some p) : p.name = name := by
  simpa using List.find?_some found

theorem named_map {f : Parameter → Parameter} (same : ∀ p, (f p).name = p.name)
    (ps : List Parameter) (name : String) : named (ps.map f) name = (named ps name).map f := by
  rw [named, List.find?_map]
  congr 1
  congr 1
  funext p
  rw [Function.comp, same]

theorem names_place (ps : List Parameter) (p : Parameter) :
    (place ps p).map Parameter.name =
      if p.name ∈ ps.map Parameter.name then ps.map Parameter.name
      else ps.map Parameter.name ++ [p.name] := by
  have known : (ps.any fun q => q.name = p.name) ↔ p.name ∈ ps.map Parameter.name := by
    simp [List.any_eq_true, List.mem_map]
  unfold place
  by_cases listed : p.name ∈ ps.map Parameter.name
  · rw [if_pos (known.mpr listed), if_pos listed, List.map_map]
    apply List.map_congr_left
    intro q _
    by_cases same : q.name = p.name
    · simp [same]
    · simp [same]
  · rw [if_neg (mt known.mp listed), if_neg listed, List.map_append, List.map_singleton]

theorem Distinct.place {ps : List Parameter} (distinct : Distinct ps) (p : Parameter) :
    Distinct (place ps p) := by
  rw [Distinct, names_place]
  split
  · exact distinct
  · rename_i new
    rw [← List.map_singleton (f := Parameter.name), ← List.map_append]
    exact distinct_concat distinct fun q listed same =>
      new (same ▸ List.mem_map_of_mem (f := Parameter.name) listed)

theorem distinct_extract (seeding : Bool) (document : List Char) :
    Distinct (extract seeding document) := by
  suffices every : ∀ ps qs : List Parameter, Distinct qs → Distinct (ps.foldl place qs) from
    every _ [] List.nodup_nil
  intro ps
  induction ps with
  | nil => intro qs distinct; exact distinct
  | cons p ps ih => intro qs distinct; exact ih _ (distinct.place p)

/-- A parameter of another document with the live value that it takes over. -/
def carry (previous : List Parameter) (p : Parameter) : Parameter :=
  match previous.find? fun old => old.name = p.name && old.kind = p.kind with
  | some old => { p with value := old.value }
  | none => p

theorem carry_known (previous : List Parameter) (p : Parameter) :
    (carry previous p).name = p.name ∧ (carry previous p).kind = p.kind := by
  unfold carry
  split <;> exact ⟨rfl, rfl⟩

theorem carry_kept {previous : List Parameter} {p old : Parameter}
    (found : named previous p.name = some old) (same : old.kind = p.kind) :
    carry previous p = { p with value := old.value } := by
  -- What stands before the first of the name has another one, so it is the first of both as well.
  have both : (previous.find? fun q => q.name = p.name && q.kind = p.kind) = some old := by
    rw [named, List.find?_eq_some_iff_append] at found
    obtain ⟨called, front, back, parts, others⟩ := found
    rw [List.find?_eq_some_iff_append]
    refine ⟨by simp [of_decide_eq_true called, same], front, back, parts, ?_⟩
    intro q listed
    have other := others q listed
    simp only [Bool.not_eq_true', decide_eq_false_iff_not] at other
    simp [other]
  rw [carry, both]

theorem carry_new {previous : List Parameter} (distinct : Distinct previous) {p : Parameter}
    (other : kindNamed previous p.name ≠ some p.kind) : carry previous p = p := by
  have none : (previous.find? fun q => q.name = p.name && q.kind = p.kind) = none := by
    rw [List.find?_eq_none]
    intro q listed both
    simp only [Bool.and_eq_true, decide_eq_true_eq] at both
    have found := distinct.named listed
    rw [both.1] at found
    apply other
    rw [kindNamed, found, ← both.2]
    rfl
  rw [carry, none]

theorem named_reconcile (previous extracted : List Parameter) (name : String) :
    named (reconcile previous extracted) name = (named extracted name).map (carry previous) :=
  named_map (fun p => (carry_known previous p).1) extracted name

theorem value_reconcile_kept {previous extracted : List Parameter} {name : String}
    (same : kindNamed extracted name = kindNamed previous name) :
    (named (reconcile previous extracted) name).map Parameter.value =
      (named previous name).map Parameter.value := by
  rw [named_reconcile]
  cases found : named extracted name with
  | none =>
    rw [kindNamed, found] at same
    have absent : named previous name = none := Option.map_eq_none_iff.mp same.symm
    rw [absent]
    rfl
  | some p =>
    rw [kindNamed, found] at same
    obtain ⟨old, before, kind⟩ := Option.map_eq_some_iff.mp same.symm
    have called := named_name found
    rw [← called] at before
    rw [← called, before, Option.map_some, carry_kept before kind]
    rfl

end ShaderBench.Param
