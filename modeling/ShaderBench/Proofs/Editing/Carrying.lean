import ShaderBench.Proofs.Editing.Effect
import ShaderBench.Proofs.Param.Carried
/-
Values under edits. An operation that is not about the values of parameters leaves them to the
reconciliation with its document, even where the document stays or does not compile.
-/
namespace ShaderBench.Param

theorem names_unset (ps : List Parameter) :
    (ps.map Parameter.unset).map Parameter.name = ps.map Parameter.name := by
  rw [List.map_map]
  rfl

theorem kindNamed_unset {ps qs : List Parameter}
    (same : ps.map Parameter.unset = qs.map Parameter.unset) (name : String) :
    kindNamed ps name = kindNamed qs name := by
  have kinds : ∀ ps, kindNamed (ps.map Parameter.unset) name = kindNamed ps name := by
    intro ps
    rw [kindNamed, named_map (f := Parameter.unset) (fun _ => rfl), Option.map_map]
    rfl
  rw [← kinds ps, same, kinds qs]

theorem reconcile_own {ps extracted : List Parameter} (distinct : Distinct ps)
    (same : ps.map Parameter.unset = extracted.map Parameter.unset) :
    reconcile ps extracted = ps := by
  -- The two lists shorten together, while the values are looked up in the whole list.
  suffices every : ∀ qs es : List Parameter, (∀ q ∈ qs, named ps q.name = some q) →
      qs.map Parameter.unset = es.map Parameter.unset → es.map (carry ps) = qs from
    every ps extracted (fun _ listed => distinct.named listed) same
  intro qs
  induction qs with
  | nil =>
    intro es _ unset
    rw [List.map_eq_nil_iff.mp unset.symm]
    rfl
  | cons q qs ih =>
    intro es found unset
    cases es with
    | nil => cases unset
    | cons e es =>
      obtain ⟨first, rest⟩ := List.cons_eq_cons.mp unset
      obtain ⟨here, later⟩ := List.forall_mem_cons.mp found
      simp only [Parameter.unset, Parameter.mk.injEq] at first
      obtain ⟨name, kind, _, default, range⟩ := first
      rw [List.map_cons, ih es later rest, carry_kept (name ▸ here) kind]
      cases q
      cases e
      simp_all

end ShaderBench.Param

namespace ShaderBench.Editing
open Gpu Param Control Assistant Session
variable {translator : Translator} {seeding : Bool} {s s' : Session}

theorem Session.Coherent.distinct (coherent : Coherent translator seeding s) :
    Distinct s.params := by
  have names := congrArg (List.map Parameter.name) coherent.params
  rw [names_unset, names_unset] at names
  rw [Distinct, names]
  exact distinct_extract seeding s.documentChars

theorem Session.Coherent.kindNamed (coherent : Coherent translator seeding s) (name : String) :
    kindNamed s.params name = kindNamed (extract seeding s.documentChars) name :=
  kindNamed_unset coherent.params name

theorem start_params (document : String) (settings : Settings.Editor) :
    (Session.start translator document settings).params =
      extract settings.seeding document.toList := by
  rw [Session.start, refresh_eq]
  exact List.map_id _

theorem Untuned.carries (untuned : Untuned translator s s')
    (coherent : Coherent translator seeding s) :
    s'.params = reconcile s.params (extract seeding s'.documentChars) := by
  cases untuned with
  | refreshed document history dirtySince inFlight =>
    rw [refresh_eq, ← coherent.option]
    rfl
  | noted => exact (reconcile_own coherent.distinct coherent.params).symm

theorem step_carries {d : Desk} {o : Operation} (quiet : o.tunes = false)
    (coherent : Coherent translator seeding d.session) :
    (step translator d o).session.params =
      reconcile d.session.params (extract seeding (step translator d o).session.documentChars) := by
  by_cases arrival : ∃ text, o = .finish (.explained text)
  · obtain ⟨text, same⟩ := arrival
    subst same
    exact (reconcile_own coherent.distinct coherent.params).symm
  · apply (step_untuned d quiet _).carries coherent
    intro text same
    exact arrival ⟨text, same⟩

theorem step_coherent {d : Desk} (o : Operation) (coherent : Coherent translator seeding d.session) :
    Coherent translator seeding (step translator d o).session := by
  by_cases takes : o = .takeProgram
  · subst takes
    exact ⟨coherent.room, coherent.option, coherent.clean, coherent.params, coherent.error⟩
  · exact (step_advances d o takes).coherent coherent

/-- A document that does not compile adds no program. -/
theorem step_pending {d : Desk} (o : Operation)
    (broken : compiled? translator (step translator d o).session.document = none) :
    ∀ p ∈ (step translator d o).session.pending, p ∈ d.session.pending := by
  intro p pending
  by_cases takes : o = .takeProgram
  · subst takes
    cases pending
  · rcases (@step_advances translator d o takes).follows with ⟨_, same⟩ | newer
    · rw [← same]
      exact pending
    · rw [newer, broken, Option.none_or] at pending
      exact pending

end ShaderBench.Editing
