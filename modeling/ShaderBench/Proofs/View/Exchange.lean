import ShaderBench.Proofs.Editing.Effect
import ShaderBench.Proofs.Preview.Painter
import ShaderBench.Proofs.Workspace.Run
import ShaderBench.View.TerminalPreview
/-
Both sides of a preview at work, each at its own pace: the side with the session changes it and
leaves what is new, the side with the device takes that and works it in. What is handed over, and
what the device makes of it, is logged, the newest first.
-/
namespace ShaderBench.Preview.Handover
open Gpu Param

@[simp] theorem setParams_program (h : Handover) (params : List Parameter) (revision : Nat) :
    (h.setParams params revision).program = h.program := by
  unfold setParams
  split <;> rfl

@[simp] theorem setParams_revision (h : Handover) (params : List Parameter) (revision : Nat) :
    (h.setParams params revision).revision = revision := by
  unfold setParams
  split
  · rename_i same
    exact same.symm
  · rfl

theorem setParams_params (h : Handover) (params : List Parameter) (revision : Nat) :
    (h.setParams params revision).params =
      if revision = h.revision then h.params else params := by
  unfold setParams
  split <;> rfl

theorem program_submitted (h : Handover) (pending : Option Program) :
    (pending.elim h h.submit).program = pending.or h.program := by
  cases pending <;> rfl

theorem params_submitted (h : Handover) (pending : Option Program) :
    (pending.elim h h.submit).revision = h.revision ∧
      (pending.elim h h.submit).params = h.params := by
  cases pending <;> exact ⟨rfl, rfl⟩

end ShaderBench.Preview.Handover

namespace ShaderBench.View
open Control Editing Preview Gpu Param

structure Taken where
  program : Option Program
  params : Option (Nat × List Parameter)
  viewport : Size

structure Trial where
  program : Program
  accepted : Bool

structure Exchange where
  preview : TerminalPreview
  taken : Option Taken
  submitted : List Program
  trials : List Trial

/-- A step of either side. A turn of the side with the device has two, since only what is left is
    guarded by a lock; the device may judge one program differently from turn to turn. -/
inductive Move where
  | operate (o : Operation)
  | act (a : HostAction) (now : Nat)
  | resize (cols rows : Nat)
  | push
  | take
  | work (device : Device)

namespace Exchange

def start (translator : Translator) (setting : Workspace.Setting) (document : String)
    (settings : Settings.Editor) (cols rows : Nat) (maxRate : Option Nat) (showRate : Bool)
    (now : Nat) : Exchange :=
  let workspace := Workspace.start translator setting document settings
  ⟨.start cols rows workspace maxRate showRate now, none, [], []⟩

def session (x : Exchange) : Session := x.preview.terminal.workspace.session

def handover (x : Exchange) : Handover := x.preview.handover

def painter (x : Exchange) : Painter := x.preview.painter

def current (x : Exchange) : Option Program :=
  (x.trials.find? Trial.accepted).map Trial.program

def tried (x : Exchange) : Option Program := x.trials.head?.map Trial.program

def accepted (x : Exchange) : Bool := x.trials.head?.any Trial.accepted

def push (x : Exchange) : Exchange :=
  let pushed := x.preview.terminal.push x.handover
  { x with
    preview := { x.preview with terminal := pushed.1, handover := pushed.2 }
    submitted := x.session.pending.toList ++ x.submitted }

def take (x : Exchange) : Exchange :=
  match x.taken with
  | some _ => x
  | none =>
    let left := x.handover.takeProgram
    { x with
      preview := { x.preview with handover := left.2 }
      taken := some ⟨left.1, x.handover.paramsSince x.painter.seen, x.handover.viewport⟩ }

def work (device : Device) (x : Exchange) : Exchange :=
  match x.taken with
  | none => x
  | some t =>
    let worked := ((x.painter.resize t.viewport).takeParams t.params).takeProgram device t.program
    { x with
      preview := { x.preview with painter := worked.1 }
      taken := none
      trials := t.program.toList.map (⟨·, worked.2 = some .running⟩) ++ x.trials }

def step (translator : Translator) (x : Exchange) : Move → Exchange
  | .operate o =>
    { x with
      preview := x.preview.mapWorkspace fun w =>
        { w with desk := Editing.step translator w.desk o } }
  | .act a now =>
    { x with preview := { x.preview with handover := (Terminal.act x.handover a now).1 } }
  | .resize cols rows => { x with preview := x.preview.resize cols rows }
  | .push => x.push
  | .take => x.take
  | .work device => x.work device

def run (translator : Translator) (x : Exchange) (ms : List Move) : Exchange :=
  ms.foldl (step translator) x

/-- A push leaves the session's parameters, and its newest program if it has one. -/
theorem push_handover (x : Exchange) :
    x.push.handover =
      (x.session.pending.elim x.handover x.handover.submit).setParams x.session.params
        x.session.revision := rfl

structure Sound (x : Exchange) : Prop where
  pending : ∀ p ∈ x.session.pending, p.layout.Ordered
  waiting : ∀ p ∈ x.handover.program, p.layout.Ordered
  taken : ∀ t ∈ x.taken, ∀ p ∈ t.program, p.layout.Ordered
  fed : x.painter.Fed
  informed : x.painter.Informed

theorem ordered_compiled {translator : Translator} {document : String} {p : Program}
    (made : p ∈ compiled? translator document) : p.layout.Ordered := by
  rw [compiled?] at made
  exact ordered_compile (eq_ok_of_mem_toOption made)

theorem ordered_pending {translator : Translator} {d : Desk}
    (before : ∀ p ∈ d.session.pending, p.layout.Ordered) (o : Operation) :
    ∀ p ∈ (Editing.step translator d o).session.pending, p.layout.Ordered := by
  intro p after
  by_cases takes : o = .takeProgram
  · subst takes
    cases after
  · rcases (@step_advances translator d o takes).follows with ⟨_, same⟩ | newer
    · rw [same] at after
      exact before p after
    · rw [newer] at after
      rcases Option.or_eq_some_iff.mp after with made | ⟨_, kept⟩
      · exact ordered_compiled made
      · exact before p kept

theorem act_left (h : Handover) (a : HostAction) (now : Nat) :
    (Terminal.act h a now).1.program = h.program ∧ (Terminal.act h a now).1.params = h.params ∧
      (Terminal.act h a now).1.revision = h.revision := by
  cases a <;> exact ⟨rfl, rfl, rfl⟩

variable {translator : Translator} {x : Exchange}

theorem Sound.push (sound : x.Sound) : x.push.Sound where
  pending := by
    intro p pending
    cases pending
  waiting := by
    intro p waits
    rw [push_handover, Handover.setParams_program, Handover.program_submitted] at waits
    rcases Option.or_eq_some_iff.mp waits with new | ⟨_, old⟩
    · exact sound.pending p new
    · exact sound.waiting p old
  taken := sound.taken
  fed := sound.fed
  informed := sound.informed

theorem Sound.take (sound : x.Sound) : x.take.Sound := by
  unfold Exchange.take
  split
  · exact sound
  · refine ⟨sound.pending, ?_, ?_, sound.fed, sound.informed⟩
    · intro p waits
      cases waits
    · intro t taken p holds
      cases taken
      exact sound.waiting p holds

theorem Sound.work (sound : x.Sound) (device : Device) : (x.work device).Sound := by
  unfold Exchange.work
  split
  · exact sound
  · rename_i t taken
    have resized := sound.informed.resize t.viewport
    refine ⟨sound.pending, sound.waiting, ?_, ?_, ?_⟩
    · intro t none
      cases none
    · have fed := (sound.fed.resize t.viewport).takeParams resized t.params
      exact fed.takeProgram (sound.taken t taken)
    · exact (resized.takeParams t.params).takeProgram device t.program

theorem Sound.step (sound : x.Sound) (m : Move) : (x.step translator m).Sound := by
  cases m with
  | operate o =>
    exact ⟨ordered_pending sound.pending o, sound.waiting, sound.taken, sound.fed, sound.informed⟩
  | act a now =>
    refine ⟨sound.pending, ?_, sound.taken, sound.fed, sound.informed⟩
    intro p waits
    have same := (act_left x.handover a now).1
    exact sound.waiting p (same ▸ waits)
  | resize cols rows =>
    exact ⟨sound.pending, sound.waiting, sound.taken, sound.fed, sound.informed⟩
  | push => exact sound.push
  | take => exact sound.take
  | work device => exact sound.work device

/-- The parameters of the painter and their revision as they will be when a turn that is under way
    has ended. -/
def view (x : Exchange) : Nat × List Parameter :=
  (x.taken.bind Taken.params).getD (x.painter.seen, x.painter.params)

/-- Of two copies of the parameters the one that comes later is not newer, and it is the same one
    if it has the same revision. -/
structure Counted (x : Exchange) : Prop where
  revision : x.handover.revision ≤ x.session.revision
  params : x.handover.revision = x.session.revision → x.handover.params = x.session.params
  seen : x.view.1 ≤ x.handover.revision
  view : x.view.1 = x.handover.revision → x.view.2 = x.handover.params

theorem Counted.push_params (counted : x.Counted) :
    x.push.handover.revision = x.session.revision ∧ x.push.handover.params = x.session.params := by
  obtain ⟨revision, params⟩ := x.handover.params_submitted x.session.pending
  rw [push_handover, Handover.setParams_revision, Handover.setParams_params, revision, params]
  refine ⟨rfl, ?_⟩
  split
  · rename_i same
    exact counted.params same.symm
  · rfl

theorem Counted.push (counted : x.Counted) : x.push.Counted := by
  obtain ⟨revision, params⟩ := counted.push_params
  have later : x.handover.revision ≤ x.push.handover.revision := by
    rw [revision]
    exact counted.revision
  refine ⟨Nat.le_of_eq revision, fun _ => params, Nat.le_trans counted.seen later, ?_⟩
  intro same
  -- The painter has seen the revision of the session only if it was left before the push.
  have seen : x.view.1 = x.push.handover.revision := same
  have before : x.view.1 = x.handover.revision := by
    have := counted.seen
    omega
  have left : x.handover.revision = x.session.revision := by omega
  rw [params, ← counted.params left]
  exact counted.view before

theorem view_take (idle : x.taken = none) :
    x.take.view = (x.handover.paramsSince x.painter.seen).getD x.view := by
  simp only [view, take, idle]
  rfl

theorem take_handover (x : Exchange) :
    x.take.handover.revision = x.handover.revision ∧ x.take.handover.params = x.handover.params := by
  unfold take
  split <;> exact ⟨rfl, rfl⟩

theorem take_session (x : Exchange) : x.take.session = x.session := by
  unfold take
  split <;> rfl

theorem Counted.view_taken (counted : x.Counted) (idle : x.taken = none) :
    x.take.view = (x.handover.revision, x.handover.params) := by
  have held : x.view = (x.painter.seen, x.painter.params) := by
    simp only [Exchange.view, idle]
    rfl
  rw [view_take idle]
  unfold Handover.paramsSince
  split
  · rename_i same
    have seen : x.view.1 = x.handover.revision := by rw [held, same]
    exact Prod.ext seen (counted.view seen)
  · rfl

theorem Counted.take (counted : x.Counted) : x.take.Counted := by
  cases idle : x.taken with
  | some t =>
    have same : x.take = x := by simp only [Exchange.take, idle]
    rw [same]
    exact counted
  | none =>
    obtain ⟨revision, params⟩ := x.take_handover
    refine ⟨?_, ?_, ?_, ?_⟩
    · rw [revision, take_session]
      exact counted.revision
    · rw [revision, params, take_session]
      exact counted.params
    · have seen := congrArg Prod.fst (counted.view_taken idle)
      exact Nat.le_of_eq (seen.trans revision.symm)
    · intro _
      rw [params, counted.view_taken idle]

theorem view_work (x : Exchange) (device : Device) : (x.work device).view = x.view := by
  unfold work
  split
  · rfl
  · rename_i t taken
    obtain ⟨seen, params⟩ :=
      ((x.painter.resize t.viewport).takeParams t.params).takeProgram_params device t.program
    simp only [view, painter, taken, Option.bind_none, Option.getD_none, Option.bind_some] at *
    rw [seen, params, Painter.takeParams_taken]
    rfl

theorem work_handover (x : Exchange) (device : Device) : (x.work device).handover = x.handover := by
  unfold work
  split <;> rfl

theorem work_session (x : Exchange) (device : Device) : (x.work device).session = x.session := by
  unfold work
  split <;> rfl

theorem Counted.work (counted : x.Counted) (device : Device) : (x.work device).Counted where
  revision := by
    rw [work_handover, work_session]
    exact counted.revision
  params := by
    rw [work_handover, work_session]
    exact counted.params
  seen := by
    rw [work_handover, view_work]
    exact counted.seen
  view := by
    rw [work_handover, view_work]
    exact counted.view

theorem Counted.operate (counted : x.Counted) (o : Operation) :
    (x.step translator (.operate o)).Counted := by
  have revised := @step_revised translator x.preview.terminal.workspace.desk o
  refine ⟨?_, ?_, counted.seen, counted.view⟩
  · have before := counted.revision
    rcases revised with ⟨revision, _⟩ | higher
    · exact Nat.le_trans before (Nat.le_of_eq revision.symm)
    · exact Nat.le_trans before (Nat.le_of_lt higher)
  · intro same
    have before := counted.revision
    -- A count that went up is beyond whatever was left.
    rcases revised with ⟨revision, params⟩ | higher
    · have left : x.handover.revision = x.session.revision := same.trans revision
      exact (counted.params left).trans params.symm
    · have reached : x.handover.revision = _ := same
      exact absurd before (Nat.not_le_of_lt (reached ▸ higher))

theorem Counted.step (counted : x.Counted) (m : Move) : (x.step translator m).Counted := by
  cases m with
  | operate o => exact counted.operate o
  | act a now =>
    obtain ⟨_, params, revision⟩ := act_left x.handover a now
    refine ⟨?_, ?_, ?_, ?_⟩
    · exact revision ▸ counted.revision
    · exact revision ▸ params ▸ counted.params
    · exact revision ▸ counted.seen
    · exact revision ▸ params ▸ counted.view
  | resize cols rows => exact ⟨counted.revision, counted.params, counted.seen, counted.view⟩
  | push => exact counted.push
  | take => exact counted.take
  | work device => exact counted.work device

section
variable (translator : Translator) (setting : Workspace.Setting) (document : String)
  (settings : Settings.Editor) (cols rows : Nat) (maxRate : Option Nat) (showRate : Bool)
  (now : Nat)

theorem start_session :
    (start translator setting document settings cols rows maxRate showRate now).session =
      Session.start translator document settings := by
  have workspace : ∀ w, (Exchange.mk (.start cols rows w maxRate showRate now) none [] []).session =
      w.session := fun w => rfl
  exact (workspace _).trans (Workspace.start_session setting document settings)

theorem sound_start :
    (start translator setting document settings cols rows maxRate showRate now).Sound := by
  refine ⟨?_, ?_, ?_, Painter.fed_start _, Painter.informed_start _⟩
  · intro p pending
    rw [start_session, start_pending] at pending
    exact ordered_compiled pending
  · intro p waits
    cases waits
  · intro t taken
    cases taken

theorem counted_start :
    (start translator setting document settings cols rows maxRate showRate now).Counted := by
  have first : (Session.start translator document settings).revision = 1 := by
    rw [Session.start, Session.refresh_eq]
  refine ⟨Nat.zero_le _, ?_, Nat.le_refl 0, fun _ => rfl⟩
  intro same
  rw [start_session, first] at same
  cases same

end

end Exchange
end ShaderBench.View
