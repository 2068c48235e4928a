import Mathlib.Data.List.Induction
import Mathlib.Data.List.Nodup
import ShaderBench.Param.Extract
/-
The last declaration of a name decides: what is listed last under a name, and the parameters that
a document is left with.
-/
namespace ShaderBench.Param
open Shader

@[grind =] def lastNamed {α : Type} (name : String) : List (String × α) → Option α
  | [] => none
  | (other, value) :: rest => (lastNamed name rest).or (if other = name then some value else none)

section LastNamed
variable {α β : Type}

theorem lastNamed_append (name : String) (xs ys : List (String × α)) :
    lastNamed name (xs ++ ys) = (lastNamed name ys).or (lastNamed name xs) := by
  induction xs with
  | nil => simp [lastNamed]
  | cons x xs ih => simp only [List.cons_append, lastNamed, ih, Option.or_assoc]

theorem lastNamed_map (name : String) (f : α → β) (xs : List (String × α)) :
    lastNamed name (xs.map fun x => (x.1, f x.2)) = (lastNamed name xs).map f := by
  induction xs with
  | nil => rfl
  | cons x xs ih =>
    simp only [List.map_cons, lastNamed, ih]
    cases lastNamed name xs with
    | some value => rfl
    | none =>
      by_cases same : x.1 = name
      · simp [same]
      · simp [same]

theorem lastNamed_none {name : String} {xs : List (String × α)}
    (absent : ∀ x ∈ xs, x.1 ≠ name) : lastNamed name xs = none := by
  induction xs with
  | nil => rfl
  | cons x xs ih =>
    have here := absent x List.mem_cons_self
    have there := ih fun y listed => absent y (List.mem_cons_of_mem x listed)
    simp [lastNamed, there, here]

theorem lastNamed_ne {name : String} {xs : List (String × α)} (none : lastNamed name xs = none)
    {x : String × α} (listed : x ∈ xs) : x.1 ≠ name := by
  induction xs with
  | nil => cases listed
  | cons y xs ih =>
    rw [lastNamed, Option.or_eq_none_iff] at none
    rcases List.mem_cons.mp listed with here | later
    · subst here
      intro same
      simp [same] at none
    · exact ih none.1 later

theorem lastNamed_listed {name : String} {value : α} {xs : List (String × α)}
    (last : lastNamed name xs = some value) : (name, value) ∈ xs := by
  induction xs with
  | nil => cases last
  | cons x xs ih =>
    rw [lastNamed] at last
    rcases Option.or_eq_some_iff.mp last with later | ⟨_, here⟩
    · exact List.mem_cons_of_mem x (ih later)
    · split at here
      · rename_i same
        cases here
        subst same
        exact List.mem_cons_self
      · cases here

theorem lastNamed_filter {name : String} {value : α} (keep : String × α → Bool)
    {xs : List (String × α)} (last : lastNamed name xs = some value) (kept : keep (name, value)) :
    lastNamed name (xs.filter keep) = some value := by
  induction xs with
  | nil => cases last
  | cons x xs ih =>
    rw [lastNamed] at last
    rcases Option.or_eq_some_iff.mp last with later | ⟨none, here⟩
    · rw [List.filter_cons]
      split
      · rw [lastNamed, ih later]
        rfl
      · exact ih later
    · split at here
      · rename_i same
        cases here
        subst same
        have absent : lastNamed x.1 (xs.filter keep) = Option.none :=
          lastNamed_none fun y listed => lastNamed_ne none (List.mem_filter.mp listed).1
        rw [List.filter_cons_of_pos kept, lastNamed, absent]
        simp
      · cases here

end LastNamed

theorem find?_distinct {α : Type} {name : α → String} {xs : List α}
    (distinct : (xs.map name).Nodup) {x : α} (listed : x ∈ xs) :
    (xs.find? fun y => name y = name x) = some x := by
  induction xs with
  | nil => cases listed
  | cons y xs ih =>
    rw [List.map_cons, List.nodup_cons] at distinct
    rcases List.mem_cons.mp listed with here | later
    · rw [here]
      exact List.find?_cons_of_pos (decide_eq_true rfl)
    · have other : name y ≠ name x := by
        intro same
        exact distinct.1 (same ▸ List.mem_map_of_mem later)
      rw [List.find?_cons_of_neg (by simpa using other)]
      exact ih distinct.2 later

theorem distinct_concat {α : Type} {name : α → String} {xs : List α} (distinct : (xs.map name).Nodup)
    {x : α} (new : ∀ y ∈ xs, name y ≠ name x) : ((xs ++ [x]).map name).Nodup := by
  rw [List.map_append, List.map_singleton, List.nodup_append]
  refine ⟨distinct, List.nodup_singleton (name x), ?_⟩
  intro used listed other here same
  obtain ⟨y, member, called⟩ := List.mem_map.mp listed
  rw [List.mem_singleton.mp here] at same
  exact new y member (called.trans same)

theorem mem_place {ps : List Parameter} {p q : Parameter} :
    q ∈ place ps p ↔ q = p ∨ q ∈ ps ∧ q.name ≠ p.name := by
  unfold place
  by_cases known : ps.any fun r => r.name = p.name
  · rw [if_pos known, List.mem_map]
    obtain ⟨old, listed, same⟩ := List.any_eq_true.mp known
    have same' : old.name = p.name := of_decide_eq_true same
    constructor
    · rintro ⟨r, member, made⟩
      by_cases named : r.name = p.name
      · rw [if_pos named] at made
        exact Or.inl made.symm
      · rw [if_neg named] at made
        subst made
        exact Or.inr ⟨member, named⟩
    · rintro (new | ⟨member, named⟩)
      · exact ⟨old, listed, by rw [if_pos same', new]⟩
      · exact ⟨q, member, if_neg named⟩
  · rw [if_neg known, List.mem_append, List.mem_singleton]
    have absent : ∀ r ∈ ps, r.name ≠ p.name := by
      intro r member same
      exact known (List.any_eq_true.mpr ⟨r, member, decide_eq_true same⟩)
    constructor
    · rintro (member | new)
      · exact Or.inr ⟨member, absent q member⟩
      · exact Or.inl new
    · rintro (new | ⟨member, _⟩)
      · exact Or.inr new
      · exact Or.inl member

/-- A parameter is left exactly if it is the last one of its name. -/
theorem mem_foldl_place (ps : List Parameter) (q : Parameter) :
    q ∈ ps.foldl place [] ↔ lastNamed q.name (ps.map fun p => (p.name, p)) = some q := by
  induction ps using List.reverseRecOn with
  | nil => simp [lastNamed]
  | append_singleton ps p ih =>
    rw [List.foldl_append, List.map_append, lastNamed_append]
    simp only [List.foldl_cons, List.foldl_nil, mem_place, ih, List.map_cons, List.map_nil,
      lastNamed, Option.none_or]
    by_cases named : p.name = q.name
    · simp only [named, if_true, Option.some_or, Option.some.injEq, ne_eq, not_true, and_false,
        or_false]
      exact eq_comm
    · have other : q ≠ p := fun same => named (by rw [same])
      simp only [named, if_false, Option.none_or, other, false_or, Ne.symm named, ne_eq,
        not_false_eq_true, and_true]

theorem mem_extract (seeding : Bool) (document : List Char) (p : Parameter) :
    p ∈ extract seeding document ↔
      lastNamed p.name (((declarations document).filterMap (ofDeclaration? seeding)).map
        fun q => (q.name, q)) = some p :=
  mem_foldl_place _ p

theorem seed_kind (p : Parameter) (v : Value) :
    (p.seed v).name = p.name ∧ (p.seed v).kind = p.kind := by
  unfold Parameter.seed
  split
  · exact ⟨rfl, rfl⟩
  · exact ⟨rfl, rfl⟩

theorem ofDeclaration?_kind (seeding : Bool) {d : Declaration} {type : UniformType}
    (free : isReserved d.name = false) (typed : UniformType.ofName? d.typeName = some type) :
    (ofDeclaration? seeding d).map (fun p => (p.name, p.kind)) =
      (kindOf? type d.name).map fun kind => (d.name, kind) := by
  simp only [ofDeclaration?, free, typed, bind, Option.bind, Bool.false_eq_true, if_false]
  cases kindOf? type d.name with
  | none => rfl
  | some kind =>
    simp only [Option.map_some, Option.some.injEq]
    split
    · rename_i v _
      obtain ⟨name, same⟩ := seed_kind (Parameter.ofKind d.name kind) v
      rw [name, same]
      rfl
    · rfl

end ShaderBench.Param
