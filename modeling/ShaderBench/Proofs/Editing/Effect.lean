import ShaderBench.Proofs.Editing.Coherence
/-
What an operation can do to a session, said once: the document is put in place and all that depends
on it follows, or the parameters change, or neither does.
-/
namespace ShaderBench.Assistant
open Editing

def Request.kind : Request → RequestKind
  | .generate _ _ => .generate
  | .explain _ _ => .explain

end ShaderBench.Assistant

namespace ShaderBench.Control

def Command.tunes : Command → Bool
  | .increase | .decrease | .resetParam => true
  | _ => false

end ShaderBench.Control

namespace ShaderBench.Editing
open Gpu Param Control Assistant

def Operation.tunes : Operation → Bool
  | .setParam _ _ => true
  | .command c => c.tunes
  | _ => false

/-- What an operation does that is not about the values of parameters. An explanation comes only
    with a response, so none is added. -/
inductive Untuned (translator : Translator) (s : Session) : Session → Prop where
  | refreshed (document : String) (history : History) (dirtySince : Option Nat)
      (inFlight : Option RequestKind) :
      Untuned translator s (.refresh translator { s with document, history, dirtySince, inFlight })
  | noted (history : History) (dirtySince : Option Nat) (pending : Option Program)
      (alert explanation : Option String) (inFlight : Option RequestKind)
      (fewer : explanation = s.explanation ∨ explanation = none) :
      Untuned translator s
        { s with history, dirtySince, pending, alert, explanation, inFlight }

inductive Effect (translator : Translator) (s : Session) : Session → Prop where
  | untuned {s' : Session} (effect : Untuned translator s s') : Effect translator s s'
  | tuned (params : List Parameter) : Effect translator s (s.changeParams params)

namespace Session
variable {translator : Translator}

theorem untuned_refl (s : Session) : Untuned translator s s :=
  .noted s.history s.dirtySince s.pending s.alert s.explanation s.inFlight (.inl rfl)

theorem untuned_commit (s : Session) : Untuned translator s s.commit :=
  .noted _ none s.pending s.alert s.explanation s.inFlight (.inl rfl)

theorem untuned_report (s : Session) (alert : String) : Untuned translator s (s.report alert) :=
  .noted s.history s.dirtySince s.pending (some alert) s.explanation s.inFlight (.inl rfl)

theorem untuned_edit (s : Session) (document : String) (now : Nat) :
    Untuned translator s (s.edit translator document now).1 := by
  unfold edit
  split
  · exact untuned_refl s
  · exact .refreshed document s.history (some now) s.inFlight

theorem untuned_tick (s : Session) (now : Nat) : Untuned translator s (s.tick now).1 := by
  rw [tick_fst]
  split
  · exact untuned_commit s
  · exact untuned_refl s

theorem commitDirty_eq (s : Session) :
    ∃ history dirtySince, s.commitDirty = { s with history, dirtySince } := by
  unfold commitDirty
  split
  · exact ⟨_, none, rfl⟩
  · exact ⟨s.history, s.dirtySince, rfl⟩

theorem replace_eq (s : Session) (document : String) :
    ∃ history, s.replace translator document =
      refresh translator { s with document, history, dirtySince := none } := by
  obtain ⟨history, dirtySince, same⟩ := commitDirty_eq s
  refine ⟨history.commit document, ?_⟩
  rw [replace, same]
  rfl

theorem untuned_replace (s : Session) (document : String) :
    Untuned translator s (s.replace translator document) := by
  obtain ⟨history, same⟩ := @replace_eq translator s document
  rw [same]
  exact .refreshed document history none s.inFlight

theorem untuned_load (s : Session) (history : History) (dirtySince : Option Nat)
    (document : String) :
    Untuned translator s ({ s with history, dirtySince }.load translator document).1 := by
  unfold load
  split
  · exact .noted history dirtySince s.pending s.alert s.explanation s.inFlight (.inl rfl)
  · exact .refreshed document history dirtySince s.inFlight

theorem untuned_undo (s : Session) : Untuned translator s (s.undo translator).1 := by
  unfold undo
  split
  · exact untuned_load s s.history none _
  · split
    · rename_i history _
      exact untuned_load s history s.dirtySince _
    · exact untuned_refl s

theorem untuned_redo (s : Session) : Untuned translator s (s.redo translator).1 := by
  unfold redo
  split
  · exact untuned_refl s
  · split
    · rename_i history _
      exact untuned_load s history s.dirtySince _
    · exact untuned_refl s

theorem effect_setParam (s : Session) (name : String) (v : Value) :
    Effect translator s (orElseKeep s (s.setParam name v)) := by
  unfold setParam
  cases setNamed name v s.params with
  | error e => exact .untuned (untuned_refl s)
  | ok params => exact .tuned params

theorem beginGeneration_eq {s s' : Session} {prompt : String} {r : Request}
    (begun : s.beginGeneration prompt = .ok (s', r)) :
    s.inFlight = none ∧ s' = { s with inFlight := some r.kind, alert := none } := by
  unfold beginGeneration at begun
  dsimp only at begun
  split at begun
  · cases begun
  · split at begun
    · cases begun
    · rename_i idle
      cases begun
      refine ⟨?_, rfl⟩
      simpa [isBusy] using idle

theorem beginExplain_eq {s s' : Session} {r : Request} (begun : s.beginExplain = .ok (s', r)) :
    s.inFlight = none ∧ s' = { s with inFlight := some r.kind } := by
  unfold beginExplain at begun
  split at begun
  · cases begun
  · split at begun
    · cases begun
    · rename_i idle
      cases begun
      refine ⟨?_, rfl⟩
      simpa [isBusy] using idle

theorem untuned_beginGeneration {s s' : Session} {prompt : String} {r : Request}
    (begun : s.beginGeneration prompt = .ok (s', r)) : Untuned translator s s' := by
  obtain ⟨_, same⟩ := beginGeneration_eq begun
  rw [same]
  exact .noted s.history s.dirtySince s.pending none s.explanation _ (.inl rfl)

theorem untuned_beginExplain {s s' : Session} {r : Request}
    (begun : s.beginExplain = .ok (s', r)) : Untuned translator s s' := by
  obtain ⟨_, same⟩ := beginExplain_eq begun
  rw [same]
  exact .noted s.history s.dirtySince s.pending s.alert s.explanation _ (.inl rfl)

theorem untuned_finish (s : Session) (document : Except Failure String) :
    Untuned translator s (s.finish translator (.generated document)).1 := by
  cases document with
  | ok document =>
    obtain ⟨history, same⟩ := @replace_eq translator { s with inFlight := none } document
    rw [finish, same]
    exact .refreshed document history none none
  | error e =>
    exact .noted s.history s.dirtySince s.pending _ s.explanation none (.inl rfl)

theorem untuned_orElseKeep {s : Session} {ε : Type} {begun : Except ε (Session × Request)}
    (each : ∀ s' r, begun = .ok (s', r) → Untuned translator s s') :
    Untuned translator s (orElseKeep s (begun.map Prod.fst)) := by
  cases begun with
  | ok pair => exact each pair.1 pair.2 rfl
  | error e => exact untuned_refl s

end Session
end ShaderBench.Editing

namespace ShaderBench.Control.Desk
open Gpu Param Editing Session Assistant
variable {translator : Translator}

theorem effect_adjust (d : Desk) (direction : Direction) :
    Effect translator d.session (d.adjust direction).1.session := by
  unfold adjust
  split
  · exact .untuned (untuned_refl _)
  · split
    · exact .tuned _
    · exact .tuned _
    · exact .tuned _

theorem effect_reset (d : Desk) : Effect translator d.session d.reset.1.session := by
  unfold reset
  split
  · exact .untuned (untuned_refl _)
  · exact .tuned _

theorem untuned_afterBegin (d : Desk) {begun : Except NoRequest (Session × Request)}
    (each : ∀ s' r, begun = .ok (s', r) → Untuned translator d.session s') :
    Untuned translator d.session (d.afterBegin begun).1.session := by
  cases begun with
  | ok pair => exact each pair.1 pair.2 rfl
  | error e => exact untuned_report _ _

theorem untuned_apply (d : Desk) {c : Command} (quiet : c.tunes = false) :
    Untuned translator d.session (d.apply translator c).1.session := by
  change Untuned translator d.clampCursor.session _
  unfold apply
  generalize d.clampCursor = d
  cases c with
  | increase | decrease | resetParam => cases quiet
  | undo =>
    rw [afterLoad_session]
    exact untuned_undo d.session
  | redo =>
    rw [afterLoad_session]
    exact untuned_redo d.session
  | submitPrompt text =>
    dsimp only
    exact untuned_afterBegin d fun _ _ => untuned_beginGeneration
  | explainError =>
    dsimp only
    exact untuned_afterBegin d fun _ _ => untuned_beginExplain
  | dismiss =>
    exact .noted _ _ d.session.pending none none d.session.inFlight (.inr rfl)
  | quit | togglePause | restartTime | movePointer | openPrompt | nextParam | prevParam
  | nextComponent => exact untuned_refl d.session

theorem effect_apply (d : Desk) (c : Command) :
    Effect translator d.session (d.apply translator c).1.session := by
  cases quiet : c.tunes with
  | false => exact .untuned (untuned_apply d quiet)
  | true =>
    change Effect translator d.clampCursor.session _
    unfold apply
    generalize d.clampCursor = d
    cases c with
    | increase => exact effect_adjust d .up
    | decrease => exact effect_adjust d .down
    | resetParam => exact effect_reset d
    | _ => cases quiet

end ShaderBench.Control.Desk

namespace ShaderBench.Editing
open Gpu Param Control Assistant Session Control.Desk
variable {translator : Translator}

theorem step_untuned (d : Desk) {o : Operation} (quiet : o.tunes = false)
    (other : ∀ text, o ≠ .finish (.explained text)) :
    Untuned translator d.session (step translator d o).session := by
  cases o with
  | setParam => cases quiet
  | edit document now => exact untuned_edit d.session document now
  | tick now => exact untuned_tick d.session now
  | commit => exact untuned_commit d.session
  | replace document => exact untuned_replace d.session document
  | undo => exact untuned_undo d.session
  | redo => exact untuned_redo d.session
  | command c => exact untuned_apply d quiet
  | beginGeneration prompt =>
    simp only [step]
    exact untuned_orElseKeep fun _ _ => untuned_beginGeneration
  | beginExplain =>
    simp only [step]
    exact untuned_orElseKeep fun _ _ => untuned_beginExplain
  | finish r =>
    cases r with
    | generated document => exact untuned_finish d.session document
    | explained text => exact absurd rfl (other text)
  | abandon reason =>
    exact .noted _ d.session.dirtySince d.session.pending _ d.session.explanation none (.inl rfl)
  | report alert => exact untuned_report d.session alert
  | takeProgram =>
    exact .noted _ d.session.dirtySince none d.session.alert d.session.explanation
      d.session.inFlight (.inl rfl)
  | dismiss => exact .noted _ _ d.session.pending none none d.session.inFlight (.inr rfl)

theorem step_effect (d : Desk) (o : Operation) (other : ∀ text, o ≠ .finish (.explained text)) :
    Effect translator d.session (step translator d o).session := by
  cases quiet : o.tunes with
  | false => exact .untuned (step_untuned d quiet other)
  | true =>
    cases o with
    | setParam name v => exact effect_setParam d.session name v
    | command c => exact effect_apply d c
    | _ => cases quiet

/-- The parameters are counted: where they may have changed, the count is higher. -/
theorem Effect.revised {s s' : Session} (effect : Effect translator s s') :
    s'.revision = s.revision ∧ s'.params = s.params ∨ s.revision < s'.revision := by
  cases effect with
  | tuned params => exact .inr (Nat.lt_succ_self _)
  | untuned effect =>
    cases effect with
    | refreshed document history dirtySince inFlight =>
      right
      rw [refresh_eq]
      exact Nat.lt_succ_self _
    | noted => exact .inl ⟨rfl, rfl⟩

theorem step_revised (d : Desk) (o : Operation) :
    (step translator d o).session.revision = d.session.revision ∧
        (step translator d o).session.params = d.session.params ∨
      d.session.revision < (step translator d o).session.revision := by
  by_cases arrival : ∃ text, o = .finish (.explained text)
  · obtain ⟨text, same⟩ := arrival
    subst same
    exact .inl ⟨rfl, rfl⟩
  · apply (step_effect d o _).revised
    intro text same
    exact arrival ⟨text, same⟩

end ShaderBench.Editing
