import ShaderBench.Proofs.Editing.Carrying
import ShaderBench.Proofs.View.Delivery
/-
The ways of programs and parameters through an exchange: where each is, and where a move can take
it from.
-/
namespace ShaderBench.View
open Control Editing Preview Gpu Param

def Move.tunes : Move → Bool
  | .operate o => o.tunes
  | _ => false

namespace Exchange
variable {translator : Translator} {seeding : Bool} {x : Exchange}

def programs (x : Exchange) : List Program :=
  x.session.pending.toList ++ (x.handover.program.toList ++
    ((x.taken.bind Taken.program).toList ++ x.painter.running.toList))

def copies (x : Exchange) : List (List Parameter) :=
  [x.session.params, x.handover.params, x.view.2, x.painter.params]

theorem mem_programs {p : Program} :
    p ∈ x.programs ↔ p ∈ x.session.pending ∨ p ∈ x.handover.program ∨
      p ∈ x.taken.bind Taken.program ∨ p ∈ x.painter.running := by
  simp only [programs, List.mem_append, Option.mem_toList, Option.mem_def]

theorem step_session (x : Exchange) (m : Move) :
    (∃ o, m = .operate o ∧ (x.step translator m).session =
        (Editing.step translator x.preview.terminal.workspace.desk o).session) ∨
      ∃ pending, (∀ p ∈ pending, p ∈ x.session.pending) ∧
        (x.step translator m).session = { x.session with pending } := by
  cases m with
  | operate o => exact .inl ⟨o, rfl, rfl⟩
  | push => exact .inr ⟨none, fun _ waits => (nomatch waits), rfl⟩
  | act a now => exact .inr ⟨x.session.pending, fun _ same => same, rfl⟩
  | resize cols rows => exact .inr ⟨x.session.pending, fun _ same => same, rfl⟩
  | take => exact .inr ⟨x.session.pending, fun _ same => same, x.take_session⟩
  | work device => exact .inr ⟨x.session.pending, fun _ same => same, x.work_session device⟩

theorem coherent_step (m : Move) (coherent : x.session.Coherent translator seeding) :
    (x.step translator m).session.Coherent translator seeding := by
  rcases @step_session translator x m with ⟨o, _, same⟩ | ⟨pending, _, same⟩
  · rw [same]
    exact step_coherent o coherent
  · rw [same]
    exact ⟨coherent.room, coherent.option, coherent.clean, coherent.params, coherent.error⟩

theorem params_step {m : Move} (quiet : m.tunes = false)
    (coherent : x.session.Coherent translator seeding) :
    (x.step translator m).session.params =
      reconcile x.session.params
        (extract seeding (x.step translator m).session.documentChars) := by
  rcases @step_session translator x m with ⟨o, made, same⟩ | ⟨pending, _, same⟩
  · subst made
    rw [same]
    exact step_carries quiet coherent
  · rw [same]
    exact (reconcile_own coherent.distinct coherent.params).symm

theorem pending_step (m : Move)
    (broken : compiled? translator (x.step translator m).session.document = none) :
    ∀ p ∈ (x.step translator m).session.pending, p ∈ x.session.pending := by
  rcases @step_session translator x m with ⟨o, _, same⟩ | ⟨pending, fewer, same⟩
  · rw [same] at broken ⊢
    exact step_pending o broken
  · rw [same]
    exact fewer

/- Programs pass from the session to the device, and from there to where they run. -/

theorem waiting_step (m : Move) :
    ∀ p ∈ (x.step translator m).handover.program,
      p ∈ x.session.pending ∨ p ∈ x.handover.program := by
  intro p waits
  cases m with
  | operate | resize => exact .inr waits
  | act a now => exact .inr ((act_left x.handover a now).1 ▸ waits)
  | push =>
    have left : x.push.handover.program = some p := waits
    rw [push_handover, Handover.setParams_program, Handover.program_submitted] at left
    rcases Option.or_eq_some_iff.mp left with new | ⟨_, old⟩
    · exact .inl new
    · exact .inr old
  | take =>
    cases taken : x.taken with
    | none =>
      have left : x.take.handover.program = some p := waits
      rw [take_program taken] at left
      cases left
    | some t =>
      simp only [step, take, taken] at waits
      exact .inr waits
  | work device => exact .inr (x.work_handover device ▸ waits)

theorem taken_step (m : Move) :
    ∀ p ∈ (x.step translator m).taken.bind Taken.program,
      p ∈ x.handover.program ∨ p ∈ x.taken.bind Taken.program := by
  intro p holds
  cases m with
  | operate | act | resize | push => exact .inr holds
  | take =>
    cases taken : x.taken with
    | none =>
      simp only [step, take, taken] at holds
      exact .inl holds
    | some t =>
      simp only [step, take, taken] at holds
      exact .inr holds
  | work device =>
    simp only [step, work_taken] at holds
    cases holds

theorem running_step (m : Move) :
    (x.step translator m).painter.running = x.painter.running ∨
      ∃ p ∈ x.taken.bind Taken.program, (x.step translator m).painter.running = some p := by
  cases m with
  | operate | act | resize | push => exact .inl rfl
  | take => exact .inl (congrArg Painter.running x.take_painter)
  | work device =>
    rcases x.work_trials device with ⟨_, _, same⟩ | ⟨p, accepted, given, _, runs⟩
    · exact .inl same
    · cases accepted with
      | false => exact .inl runs
      | true => exact .inr ⟨p, given, runs⟩

theorem programs_step {m : Move}
    (broken : compiled? translator (x.step translator m).session.document = none) :
    ∀ p ∈ (x.step translator m).programs, p ∈ x.programs := by
  intro p listed
  rw [mem_programs] at listed ⊢
  rcases listed with pending | waits | holds | runs
  · exact .inl (pending_step m broken p pending)
  · rcases waiting_step m p waits with new | old
    · exact .inl new
    · exact .inr (.inl old)
  · rcases taken_step m p holds with new | old
    · exact .inr (.inl new)
    · exact .inr (.inr (.inl old))
  · rcases @running_step translator x m with same | ⟨p', given, same⟩
    · exact .inr (.inr (.inr (same ▸ runs)))
    · rw [same, Option.mem_some_iff] at runs
      exact .inr (.inr (.inl (runs ▸ given)))

/-- No program is on its way to the device. -/
structure Settled (x : Exchange) : Prop where
  pending : x.session.pending = none
  waiting : x.handover.program = none
  taken : x.taken.bind Taken.program = none

theorem eq_none_of_not_mem {α : Type} {o : Option α} (none : ∀ a ∈ o, False) : o = Option.none :=
  Option.eq_none_iff_forall_not_mem.mpr none

theorem Settled.step (settled : x.Settled) {m : Move}
    (broken : compiled? translator (x.step translator m).session.document = none) :
    (x.step translator m).Settled ∧
      (x.step translator m).painter.running = x.painter.running := by
  obtain ⟨pending, waiting, taken⟩ := settled
  refine ⟨⟨?_, ?_, ?_⟩, ?_⟩
  · apply eq_none_of_not_mem
    intro p waits
    have before := pending_step m broken p waits
    rw [pending] at before
    cases before
  · apply eq_none_of_not_mem
    intro p waits
    rcases waiting_step m p waits with before | before
    · rw [pending] at before
      cases before
    · rw [waiting] at before
      cases before
  · apply eq_none_of_not_mem
    intro p holds
    rcases taken_step m p holds with before | before
    · rw [waiting] at before
      cases before
    · rw [taken] at before
      cases before
  · rcases @running_step translator x m with same | ⟨p, given, _⟩
    · exact same
    · rw [taken] at given
      cases given

/- Parameters pass from the session to what is left, from there into a turn, and then to the
   painter. -/

theorem copies_step (counted : x.Counted) (m : Move) :
    ∀ ps ∈ (x.step translator m).copies,
      ps ∈ x.copies ∨ ps = (x.step translator m).session.params := by
  -- Each of the three places behind the session keeps its copy or has the one before it.
  have left : (x.step translator m).handover.params = x.handover.params ∨
      (x.step translator m).handover.params = x.session.params := by
    by_cases pushes : m = .push
    · subst pushes
      exact .inr counted.push_params.2
    · exact .inl (step_left pushes).1
  have viewed : (x.step translator m).view.2 = x.view.2 ∨
      (x.step translator m).view.2 = x.handover.params := by
    cases m with
    | operate | act | resize | push => exact .inl rfl
    | take =>
      cases idle : x.taken with
      | none => exact .inr (congrArg Prod.snd (counted.view_taken idle))
      | some t =>
        left
        simp only [step, take, idle]
    | work device => exact .inl (congrArg Prod.snd (x.view_work device))
  have painter : (x.step translator m).painter.params = x.painter.params ∨
      (x.step translator m).painter.params = x.view.2 := by
    cases m with
    | operate | act | resize | push => exact .inl rfl
    | take => exact .inl (congrArg Painter.params x.take_painter)
    | work device =>
      right
      have held := congrArg Prod.snd (x.view_work device)
      rw [Exchange.view, work_taken] at held
      exact held
  intro ps listed
  simp only [copies, List.mem_cons, List.not_mem_nil, or_false] at listed ⊢
  rcases listed with here | here | here | here
  · exact .inr here
  · rcases left with same | same
    · exact .inl (.inr (.inl (here.trans same)))
    · exact .inl (.inl (here.trans same))
  · rcases viewed with same | same
    · exact .inl (.inr (.inr (.inl (here.trans same))))
    · exact .inl (.inr (.inl (here.trans same)))
  · rcases painter with same | same
    · exact .inl (.inr (.inr (.inr (here.trans same))))
    · exact .inl (.inr (.inr (.inl (here.trans same))))

/-- Nothing is under way: the device has all that the session had to hand over. -/
structure Delivered (x : Exchange) : Prop where
  pending : x.session.pending = none
  waiting : x.handover.program = none
  idle : x.taken = none
  left : x.handover.revision = x.session.revision
  seen : x.painter.seen = x.session.revision

theorem Delivered.settled (delivered : x.Delivered) : x.Settled :=
  ⟨delivered.pending, delivered.waiting, by rw [delivered.idle]; rfl⟩

theorem view_idle (idle : x.taken = none) : x.view = (x.painter.seen, x.painter.params) := by
  rw [view, idle]
  rfl

theorem Delivered.copies (delivered : x.Delivered) (counted : x.Counted) :
    ∀ ps ∈ x.copies, ps = x.session.params := by
  have left := counted.params delivered.left
  have viewed := view_idle delivered.idle
  have seen : x.view.1 = x.handover.revision := by
    rw [viewed, delivered.left]
    exact delivered.seen
  have view := (counted.view seen).trans left
  have painter : x.painter.params = x.session.params := by
    rw [← view, viewed]
  intro ps listed
  simp only [Exchange.copies, List.mem_cons, List.not_mem_nil, or_false] at listed
  rcases listed with here | here | here | here
  · exact here
  · exact here.trans left
  · exact here.trans view
  · exact here.trans painter

theorem Delivered.params (delivered : x.Delivered) (counted : x.Counted) :
    x.painter.params = x.session.params :=
  delivered.copies counted _ (by simp [Exchange.copies])

theorem push_session (x : Exchange) :
    x.push.session.document = x.session.document ∧ x.push.session.params = x.session.params :=
  ⟨rfl, rfl⟩

theorem turn_session (x : Exchange) (device : Device) :
    (x.turn translator [] device).session = x.session := by
  rw [turn, work_session]
  exact x.take_session

/-- A push and a whole turn after it deliver everything. -/
theorem delivered_turn (counted : x.Counted) (idle : x.taken = none) (device : Device) :
    (x.push.turn translator [] device).Delivered := by
  have idle' : x.push.taken = none := idle
  have session := @turn_session translator x.push device
  have handover : (x.push.turn translator [] device).handover = x.push.take.handover := by
    rw [turn, work_handover]
    rfl
  have ended : (x.push.turn translator [] device).taken = none := by
    rw [turn, work_taken]
  have revision : x.push.take.handover.revision = x.push.session.revision :=
    x.push.take_handover.1.trans counted.push_params.1
  refine ⟨?_, ?_, ended, ?_, ?_⟩
  · rw [session]
    rfl
  · rw [handover, take_program idle']
  · rw [handover, session, revision]
  · have view : (x.push.turn translator [] device).view = x.push.take.view := by
      rw [turn, view_work]
      rfl
    rw [view_idle ended, counted.push.view_taken idle'] at view
    rw [session]
    exact (congrArg Prod.fst view).trans counted.push_params.1

theorem turn_runs {device : Device} {p : Program} (idle : x.taken = none)
    (pending : x.session.pending = some p) (able : device.fault? p = none) :
    (x.push.turn translator [] device).painter.running = some p := by
  have idle' : x.push.taken = none := idle
  have waits : x.push.handover.program = some p := by
    rw [push_handover, Handover.setParams_program, Handover.program_submitted, pending]
    rfl
  rw [(@turn_alone translator x.push idle' device).1, Painter.turn, Handover.takeProgram, waits]
  exact Painter.takeProgram_able able _

end Exchange
end ShaderBench.View
