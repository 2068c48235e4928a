import Mathlib.Algebra.BigOperators.Intervals
import ShaderBench.Preview.Frame
/-
The clock against the pauses themselves. What is pressed up to an instant tells whether the clock is
paused then; the span it shows is the length of the stretches since the last restart that are not.
-/
namespace ShaderBench.Preview.Clock

inductive Action where
  | toggle
  | restart
  deriving DecidableEq, Repr

structure Press where
  action : Action
  time : Nat
  deriving DecidableEq, Repr

def press (c : Clock) (p : Press) : Clock :=
  match p.action with
  | .toggle => c.toggle p.time
  | .restart => c.restart p.time

def pressed (c : Clock) (ps : List Press) : Clock := ps.foldl press c

def pausedIn (ps : List Press) (t : Nat) : Bool :=
  ps.countP (fun p => p.action = .toggle && p.time ≤ t) % 2 = 1

def lastZero (created : Nat) (ps : List Press) : Nat :=
  ps.foldl (fun last p => if p.action = .restart then p.time else last) created

/-- The total length of what is not paused between two instants: each instant stands for the
    nanosecond that begins with it. -/
def running (ps : List Press) (a b : Nat) : Nat :=
  ((Finset.Ico a b).filter fun t => pausedIn ps t = false).card

/- What is pressed and what is paused. -/

theorem pausedIn_steady {ps : List Press} {last t : Nat} (early : ∀ p ∈ ps, p.time ≤ last)
    (later : last ≤ t) : pausedIn ps t = pausedIn ps last := by
  have same : ps.countP (fun p => p.action = .toggle && p.time ≤ t) =
      ps.countP (fun p => p.action = .toggle && p.time ≤ last) := by
    apply List.countP_congr
    intro p listed
    have here := early p listed
    have there : p.time ≤ t := by omega
    simp [here, there]
  rw [pausedIn, same, pausedIn]

theorem pausedIn_before (ps : List Press) {p : Press} {t : Nat} (before : t < p.time) :
    pausedIn (ps ++ [p]) t = pausedIn ps t := by
  have not_yet : ¬ p.time ≤ t := by omega
  simp [pausedIn, List.countP_append, not_yet]

theorem pausedIn_toggle (ps : List Press) (now : Nat) :
    pausedIn (ps ++ [⟨.toggle, now⟩]) now = !pausedIn ps now := by
  rw [Bool.eq_iff_iff]
  simp [pausedIn, List.countP_append]
  omega

theorem pausedIn_restart (ps : List Press) (now : Nat) :
    pausedIn (ps ++ [⟨.restart, now⟩]) now = pausedIn ps now := by
  simp [pausedIn, List.countP_append]

theorem lastZero_press (created : Nat) (ps : List Press) (p : Press) :
    lastZero created (ps ++ [p]) =
      if p.action = .restart then p.time else lastZero created ps := by
  simp [lastZero]

/- Lengths of what is not paused. -/

theorem running_split (ps : List Press) {a b c : Nat} (first : a ≤ b) (second : b ≤ c) :
    running ps a c = running ps a b + running ps b c := by
  simp only [running, Finset.card_filter]
  exact (Finset.sum_Ico_consecutive _ first second).symm

theorem running_steady {ps : List Press} {last : Nat} (early : ∀ p ∈ ps, p.time ≤ last)
    (now : Nat) : running ps last now = if pausedIn ps last then 0 else now - last := by
  have steady : ∀ t ∈ Finset.Ico last now, (pausedIn ps t = false ↔ pausedIn ps last = false) := by
    intro t member
    rw [pausedIn_steady early (Finset.mem_Ico.mp member).1]
  rw [running, Finset.filter_congr steady]
  cases pausedIn ps last with
  | true => simp
  | false => simp

theorem running_before (ps : List Press) (p : Press) (a : Nat) :
    running (ps ++ [p]) a p.time = running ps a p.time := by
  have same : ∀ t ∈ Finset.Ico a p.time,
      (pausedIn (ps ++ [p]) t = false ↔ pausedIn ps t = false) := by
    intro t member
    rw [pausedIn_before ps (Finset.mem_Ico.mp member).2]
  rw [running, Finset.filter_congr same, running]

theorem running_none (ps : List Press) (t : Nat) : running ps t t = 0 := by
  simp [running]

section Steps
variable {created now later : Nat} {ps : List Press} {c : Clock}

/-- At an instant the start of the clock is not after its end, nor its end after the instant. -/
def Timely (c : Clock) (now : Nat) : Prop :=
  c.start ≤ c.pausedAt.getD now ∧ c.pausedAt.getD now ≤ now

theorem Timely.wait (timely : c.Timely now) (passed : now ≤ later) : c.Timely later := by
  obtain ⟨start, pausedAt⟩ := c
  cases pausedAt with
  | none =>
    have started : start ≤ now := timely.1
    exact ⟨started.trans passed, Nat.le_refl later⟩
  | some pause => exact ⟨timely.1, timely.2.trans passed⟩

theorem Timely.toggle (timely : c.Timely now) : (c.toggle now).Timely now := by
  obtain ⟨start, pausedAt⟩ := c
  cases pausedAt with
  | none => exact ⟨timely.1, Nat.le_refl now⟩
  | some pause =>
    obtain ⟨started, paused⟩ : start ≤ pause ∧ pause ≤ now := timely
    have moved : start + (now - pause) ≤ now := by omega
    exact ⟨moved, Nat.le_refl now⟩

theorem timely_restart (c : Clock) (now : Nat) : (c.restart now).Timely now := by
  obtain ⟨start, pausedAt⟩ := c
  cases pausedAt with
  | none => exact ⟨Nat.le_refl now, Nat.le_refl now⟩
  | some pause => exact ⟨Nat.le_refl now, Nat.le_refl now⟩

theorem isPaused_toggle (c : Clock) (now : Nat) : (c.toggle now).isPaused = !c.isPaused := by
  obtain ⟨start, pausedAt⟩ := c
  cases pausedAt with
  | none => rfl
  | some pause => rfl

theorem isPaused_restart (c : Clock) (now : Nat) : (c.restart now).isPaused = c.isPaused :=
  Option.isSome_map

theorem span_later (timely : c.Timely now) (passed : now ≤ later) :
    c.span later = c.span now + if c.isPaused then 0 else later - now := by
  obtain ⟨start, pausedAt⟩ := c
  cases pausedAt with
  | none =>
    have started : start ≤ now := timely.1
    simp only [span, isPaused, Option.getD_none, Option.isSome_none, Bool.false_eq_true, if_false]
    omega
  | some pause => simp [span, isPaused]

theorem span_toggle (timely : c.Timely now) : (c.toggle now).span now = c.span now := by
  obtain ⟨start, pausedAt⟩ := c
  cases pausedAt with
  | none => rfl
  | some pause =>
    obtain ⟨started, paused⟩ : start ≤ pause ∧ pause ≤ now := timely
    simp only [Clock.toggle, span, Option.getD_none, Option.getD_some]
    omega

theorem span_restart (c : Clock) (now : Nat) : (c.restart now).span now = 0 := by
  obtain ⟨start, pausedAt⟩ := c
  cases pausedAt with
  | none => exact Nat.sub_self now
  | some pause => exact Nat.sub_self now

/-- How the clock stands at an instant after all that was pressed. -/
structure Keeps (created : Nat) (ps : List Press) (now : Nat) (c : Clock) : Prop where
  early : ∀ p ∈ ps, p.time ≤ now
  zero_le : lastZero created ps ≤ now
  timely : c.Timely now
  paused : c.isPaused = pausedIn ps now
  span_eq : c.span now = running ps (lastZero created ps) now

theorem keeps_startAt (created : Nat) : Keeps created [] created (startAt created) where
  early := by simp
  zero_le := Nat.le_refl created
  timely := ⟨Nat.le_refl created, Nat.le_refl created⟩
  paused := rfl
  span_eq := by simp [span, startAt, lastZero, running_none]

theorem Keeps.wait (keeps : Keeps created ps now c) (passed : now ≤ later) :
    Keeps created ps later c where
  early := fun p listed => (keeps.early p listed).trans passed
  zero_le := keeps.zero_le.trans passed
  timely := keeps.timely.wait passed
  paused := by rw [pausedIn_steady keeps.early passed, keeps.paused]
  span_eq := by
    rw [span_later keeps.timely passed, running_split ps keeps.zero_le passed,
      running_steady keeps.early, keeps.span_eq, keeps.paused]

theorem Keeps.early_press (keeps : Keeps created ps now c) (action : Action) :
    ∀ p ∈ ps ++ [⟨action, now⟩], p.time ≤ now := by
  intro p listed
  rcases List.mem_append.mp listed with before | last
  · exact keeps.early p before
  · rw [List.mem_singleton.mp last]

theorem Keeps.toggle (keeps : Keeps created ps now c) :
    Keeps created (ps ++ [⟨.toggle, now⟩]) now (c.toggle now) where
  early := keeps.early_press .toggle
  zero_le := by
    rw [lastZero_press, if_neg nofun]
    exact keeps.zero_le
  timely := keeps.timely.toggle
  paused := by rw [isPaused_toggle, pausedIn_toggle, keeps.paused]
  span_eq := by
    have before := running_before ps ⟨.toggle, now⟩ (lastZero created ps)
    rw [lastZero_press, if_neg nofun, before, ← keeps.span_eq]
    exact span_toggle keeps.timely

theorem Keeps.restart (keeps : Keeps created ps now c) :
    Keeps created (ps ++ [⟨.restart, now⟩]) now (c.restart now) where
  early := keeps.early_press .restart
  zero_le := by rw [lastZero_press, if_pos rfl]
  timely := timely_restart c now
  paused := by rw [isPaused_restart, pausedIn_restart, keeps.paused]
  span_eq := by
    rw [lastZero_press, if_pos rfl, running_none]
    exact span_restart c now

theorem Keeps.press (keeps : Keeps created ps now c) (action : Action) :
    Keeps created (ps ++ [⟨action, now⟩]) now (c.press ⟨action, now⟩) := by
  cases action with
  | toggle => exact keeps.toggle
  | restart => exact keeps.restart

theorem Keeps.pressed (keeps : Keeps created ps now c) (more : List Press)
    (ordered : (now :: (more.map Press.time ++ [later])).Pairwise (· ≤ ·)) :
    Keeps created (ps ++ more) later (c.pressed more) := by
  induction more generalizing ps now c with
  | nil =>
    have passed : now ≤ later := List.rel_of_pairwise_cons ordered (by simp)
    rw [List.append_nil]
    exact keeps.wait passed
  | cons p more ih =>
    obtain ⟨action, time⟩ := p
    have passed : now ≤ time := List.rel_of_pairwise_cons ordered (by simp)
    have next := ih ((keeps.wait passed).press action) (List.Pairwise.of_cons ordered)
    rwa [List.append_assoc] at next

end Steps

/-- At any instant after any run of toggles and restarts the clock shows how long it was not paused
    since the last restart. It stands still while it is paused, goes on from what it showed when it
    is toggled, without a start in the future, and is at zero when it is restarted, paused or not. -/
theorem counts_running_time (created : Nat) (ps : List Press) (now : Nat)
    (ordered : (created :: (ps.map Press.time ++ [now])).Pairwise (· ≤ ·)) :
    let c := (startAt created).pressed ps
    (c.span now = running ps (lastZero created ps) now ∧
        c.elapsed now = seconds (running ps (lastZero created ps) now)) ∧
      c.isPaused = pausedIn ps now ∧
      (c.isPaused → ∀ later, now ≤ later → c.span later = c.span now) ∧
      ((c.toggle now).span now = c.span now ∧ (c.toggle now).start ≤ now) ∧
      (c.restart now).span now = 0 ∧ (c.restart now).isPaused = c.isPaused := by
  intro c
  have keeps : Keeps created ps now c := (keeps_startAt created).pressed ps ordered
  refine ⟨⟨keeps.span_eq, ?_⟩, keeps.paused, ?_, ⟨span_toggle keeps.timely, ?_⟩, span_restart c now,
    isPaused_restart c now⟩
  · rw [elapsed, keeps.span_eq]
  · intro paused later passed
    rw [span_later keeps.timely passed, if_pos paused, Nat.add_zero]
  · have moved := keeps.timely.toggle
    exact moved.1.trans moved.2

theorem counts_after_pause :
    let ps : List Press := [⟨.toggle, 3⟩, ⟨.restart, 5⟩, ⟨.toggle, 7⟩, ⟨.toggle, 9⟩]
    (1 :: (ps.map Press.time ++ [12])).Pairwise (· ≤ ·) ∧ running ps (lastZero 1 ps) 12 = 2 ∧
      ((startAt 1).pressed ps).span 12 = 2 := by
  intro ps
  have ordered : (1 :: (ps.map Press.time ++ [12])).Pairwise (· ≤ ·) := by decide
  have length : running ps (lastZero 1 ps) 12 = 2 := by decide
  exact ⟨ordered, length, (counts_running_time 1 ps 12 ordered).1.1.trans length⟩

end ShaderBench.Preview.Clock
