import ShaderBench.Proofs.View.Exchange
/-
What a push leaves reaches the device: after the next whole turn the device has the parameters of
the session, and it has tried the newest program.
-/
namespace ShaderBench.View.Exchange
open Control Editing Preview Gpu Param
variable {translator : Translator} {x : Exchange}

/-- A program that was submitted waits, or is taken, or has been tried, unless a newer one took its
    place; and the program that runs is the last one that was accepted. -/
structure Tried (x : Exchange) : Prop where
  newest : (x.handover.program.or (x.taken.bind Taken.program)).or x.tried = x.submitted.head?
  current : x.current = x.painter.running

theorem Tried.push (tried : x.Tried) : x.push.Tried where
  newest := by
    -- The session's program comes before all others, and so it does in the log.
    have before := congrArg x.session.pending.or tried.newest
    rw [← Option.or_assoc, ← Option.or_assoc] at before
    rw [push_handover, Handover.setParams_program, Handover.program_submitted]
    refine before.trans ?_
    cases pending : x.session.pending with
    | none =>
      simp only [Exchange.push, pending]
      rfl
    | some p =>
      simp only [Exchange.push, pending]
      rfl
  current := tried.current

theorem Tried.take (tried : x.Tried) : x.take.Tried := by
  have newest := tried.newest
  unfold Exchange.take
  split
  · exact tried
  · rename_i idle
    refine ⟨?_, tried.current⟩
    simp only [idle, Option.bind_none, Option.or_none] at newest
    exact newest

theorem work_trials (x : Exchange) (device : Device) :
    (x.taken.bind Taken.program = none ∧ (x.work device).trials = x.trials ∧
        (x.work device).painter.running = x.painter.running) ∨
      ∃ p accepted, x.taken.bind Taken.program = some p ∧
        (x.work device).trials = ⟨p, accepted⟩ :: x.trials ∧
        (x.work device).painter.running = if accepted then some p else x.painter.running := by
  cases taken : x.taken with
  | none =>
    left
    have same : x.work device = x := by simp only [Exchange.work, taken]
    rw [same]
    exact ⟨rfl, rfl, rfl⟩
  | some t =>
    have runs := ((x.painter.resize t.viewport).takeParams t.params).takeProgram_running device
      t.program
    rw [(Painter.takeParams_programs _ _).2] at runs
    cases given : t.program with
    | none =>
      left
      simp only [Exchange.work, taken, given, painter] at runs ⊢
      exact ⟨given, rfl, runs⟩
    | some p =>
      right
      simp only [Exchange.work, taken, given, painter] at runs ⊢
      refine ⟨p, _, given, rfl, ?_⟩
      simp only [decide_eq_true_eq]
      exact runs

theorem work_taken (x : Exchange) (device : Device) : (x.work device).taken = none := by
  cases taken : x.taken <;> simp only [Exchange.work, taken]

theorem work_submitted (x : Exchange) (device : Device) :
    (x.work device).submitted = x.submitted := by
  cases taken : x.taken <;> simp only [Exchange.work, taken]

theorem Tried.work (tried : x.Tried) (device : Device) : (x.work device).Tried := by
  obtain ⟨newest, current⟩ := tried
  rcases x.work_trials device with ⟨given, trials, runs⟩ | ⟨p, accepted, given, trials, runs⟩
  · rw [given, Option.or_none] at newest
    refine ⟨?_, ?_⟩
    · rw [work_handover, work_taken, work_submitted, Option.bind_none, Option.or_none,
        Exchange.tried, trials]
      exact newest
    · rw [Exchange.current, trials, runs]
      exact current
  · rw [given] at newest
    refine ⟨?_, ?_⟩
    · rw [work_handover, work_taken, work_submitted, Option.bind_none, Option.or_none,
        Exchange.tried, trials]
      rw [Option.or_assoc] at newest
      exact newest
    · rw [Exchange.current, trials, runs]
      cases accepted with
      | false => exact current
      | true => rfl

theorem Tried.step (tried : x.Tried) (m : Move) : (x.step translator m).Tried := by
  cases m with
  | operate o => exact ⟨tried.newest, tried.current⟩
  | act a now =>
    refine ⟨?_, tried.current⟩
    have same := (act_left x.handover a now).1
    exact (congrArg (fun p : Option Program => (p.or (x.taken.bind Taken.program)).or x.tried)
      same).trans tried.newest
  | resize cols rows => exact ⟨tried.newest, tried.current⟩
  | push => exact tried.push
  | take => exact tried.take
  | work device => exact tried.work device

structure Steady (x : Exchange) : Prop where
  sound : x.Sound
  counted : x.Counted
  tried : x.Tried

theorem Steady.push (steady : x.Steady) : x.push.Steady :=
  ⟨steady.sound.push, steady.counted.push, steady.tried.push⟩

theorem Steady.take (steady : x.Steady) : x.take.Steady :=
  ⟨steady.sound.take, steady.counted.take, steady.tried.take⟩

theorem Steady.run (steady : x.Steady) (ms : List Move) : (x.run translator ms).Steady := by
  induction ms generalizing x with
  | nil => exact steady
  | cons m ms ih => exact ih ⟨steady.sound.step m, steady.counted.step m, steady.tried.step m⟩

/-- Only a push changes what is left of the parameters, or submits a program. -/
theorem step_left {m : Move} (other : m ≠ .push) :
    (x.step translator m).handover.params = x.handover.params ∧
      (x.step translator m).submitted = x.submitted := by
  cases m with
  | push => exact absurd rfl other
  | operate o => exact ⟨rfl, rfl⟩
  | act a now => exact ⟨(act_left x.handover a now).2.1, rfl⟩
  | resize cols rows => exact ⟨rfl, rfl⟩
  | take =>
    refine ⟨x.take_handover.2, ?_⟩
    cases taken : x.taken <;> simp only [Exchange.step, Exchange.take, taken]
  | work device => exact ⟨congrArg Handover.params (x.work_handover device), x.work_submitted device⟩

end ShaderBench.View.Exchange

namespace ShaderBench.View
open Control Editing Preview Gpu Param

def Move.quiet : Move → Bool
  | .operate _ | .act _ _ | .resize _ _ => true
  | .push | .take | .work _ => false

namespace Exchange
variable {translator : Translator} {x : Exchange}

theorem step_quiet {m : Move} (quiet : m.quiet) :
    (x.step translator m).taken = x.taken ∧ (x.step translator m).painter = x.painter ∧
      (x.step translator m).handover.program = x.handover.program := by
  cases m with
  | operate o => exact ⟨rfl, rfl, rfl⟩
  | act a now => exact ⟨rfl, rfl, (act_left x.handover a now).1⟩
  | resize cols rows => exact ⟨rfl, rfl, rfl⟩
  | push | take | work => cases quiet

theorem take_painter (x : Exchange) : x.take.painter = x.painter := by
  unfold take
  split <;> rfl

theorem take_program (idle : x.taken = none) : x.take.handover.program = none := by
  simp only [take, idle]
  rfl

def turn (translator : Translator) (x : Exchange) (during : List Move) (device : Device) :
    Exchange :=
  (x.take.run translator during).work device

/-- Undisturbed it is the turn of the painter. -/
theorem turn_alone (idle : x.taken = none) (device : Device) :
    (x.turn translator [] device).painter = (x.painter.turn device x.handover).1 ∧
      (x.turn translator [] device).handover = (x.painter.turn device x.handover).2.1 := by
  simp only [turn, take, idle]
  exact ⟨rfl, rfl⟩

theorem Steady.turn (steady : x.Steady) (during : List Move) (device : Device) :
    (x.turn translator during device).Steady := by
  have taken : (x.take.run translator during).Steady := steady.take.run during
  exact ⟨taken.sound.work device, taken.counted.work device, taken.tried.work device⟩

theorem steady_start (translator : Translator) (setting : Workspace.Setting) (document : String)
    (settings : Settings.Editor) (cols rows : Nat) (maxRate : Option Nat) (showRate : Bool)
    (now : Nat) :
    (start translator setting document settings cols rows maxRate showRate now).Steady where
  sound := sound_start ..
  counted := counted_start ..
  tried := ⟨rfl, rfl⟩

end Exchange
end ShaderBench.View
