import ShaderBench.Proofs.Editing.Shapes
/-
Commands and what they reach. Wherever the cursor was left, it stands on the parameters after every
command; a step or a reset is about the one parameter that it stands on, and only undo and redo are
about the document.
-/
namespace ShaderBench.Control.Cursor
open Param

/-- A cursor that stands on a list, that is on a component of one of its parameters. -/
structure On (c : Cursor) (ps : List Parameter) : Prop where
  index : c.index < ps.length ∨ ps = [] ∧ c.index = 0
  component : c.component < (c.selected ps).elim 1 fun p => p.kind.components

section Moves
variable {c : Cursor} {ps ps' : List Parameter}

theorem components_positive (k : Kind) : 0 < k.components := by
  cases k <;> decide

theorem on_first (index : c.index < ps.length ∨ ps = [] ∧ c.index = 0) (first : c.component = 0) :
    c.On ps := by
  refine ⟨index, ?_⟩
  rw [first]
  cases c.selected ps with
  | none => exact Nat.one_pos
  | some p => exact components_positive p.kind

theorem clamp_on (c : Cursor) (ps : List Parameter) : (c.clamp ps).On ps := by
  unfold clamp
  extract_lets c' components
  have index : c'.index < ps.length ∨ ps = [] ∧ c'.index = 0 := by
    by_cases within : c.index < ps.length
    · have kept : c' = c := if_pos within
      exact .inl (kept ▸ within)
    · have last : c' = ⟨ps.length - 1, 0⟩ := if_neg within
      rw [last]
      rcases ps.length.eq_zero_or_pos with zero | positive
      · exact .inr ⟨List.length_eq_zero_iff.mp zero, by rw [zero]⟩
      · exact .inl (Nat.sub_one_lt_of_lt positive)
  split
  · rename_i within
    exact ⟨index, within⟩
  · exact on_first index rfl

theorem on_turned (some : ¬ ps.isEmpty = true) (i : Nat) : On ⟨i % ps.length, 0⟩ ps := by
  have positive : 0 < ps.length := List.length_pos_iff.mpr (by simpa using some)
  exact on_first (.inl (Nat.mod_lt i positive)) rfl

theorem On.next (on : c.On ps) : (c.next ps).On ps := by
  unfold Cursor.next
  split
  · exact on
  · rename_i some
    exact on_turned some _

theorem On.prev (on : c.On ps) : (c.prev ps).On ps := by
  unfold Cursor.prev
  split
  · exact on
  · rename_i some
    exact on_turned some _

theorem On.nextComponent (on : c.On ps) : (c.nextComponent ps).On ps := by
  unfold Cursor.nextComponent
  split
  · rename_i p found
    refine ⟨on.index, ?_⟩
    let turned : Cursor := { c with component := (c.component + 1) % p.kind.components }
    have same : turned.selected ps = some p := found
    change turned.component < (turned.selected ps).elim 1 fun p => p.kind.components
    rw [same]
    exact Nat.mod_lt _ (components_positive p.kind)
  · exact on

theorem On.unset (on : c.On ps) (same : ps'.map Parameter.unset = ps.map Parameter.unset) :
    c.On ps' := by
  have components : ∀ qs : List Parameter, (c.selected qs).elim 1 (fun p => p.kind.components) =
      ((qs.map Parameter.unset)[c.index]?).elim 1 fun p => p.kind.components := by
    intro qs
    rw [selected, List.getElem?_map]
    cases qs[c.index]? <;> rfl
  have length : ps'.length = ps.length := by
    have lengths := congrArg List.length same
    rwa [List.length_map, List.length_map] at lengths
  constructor
  · rw [← List.length_eq_zero_iff, length, List.length_eq_zero_iff]
    exact on.index
  · rw [components, same, ← components]
    exact on.component

theorem On.selected_none (on : c.On ps) (none : c.selected ps = none) : ps = [] := by
  rcases on.index with within | ⟨empty, _⟩
  · rw [selected, List.getElem?_eq_getElem within] at none
    cases none
  · exact empty

end Moves
end ShaderBench.Control.Cursor

namespace ShaderBench.Param

theorem Value.same_right {v w : Value} (same : v.same w = true) : w.same w = true := by
  cases v <;> cases w <;> try cases same
  all_goals simp_all [Value.same, Single.same]

section Step
variable {p : Parameter} {component : Nat} {d : Direction}

/-- What a change of one component leaves alone. -/
structure Nudged (component : Nat) (p p' : Parameter) : Prop where
  unset : p'.unset = p.unset
  fits : p'.value.fits p'.kind
  others : ∀ i, i ≠ component → p'.value.components[i]? = p.value.components[i]?

theorem steps_other (kind : Kind) {i : Nat} (other : i ≠ component) (xs : List Single) :
    (xs.mapIdx (stepAt kind d component))[i]? = xs[i]? := by
  rw [List.getElem?_mapIdx]
  cases xs[i]? with
  | none => rfl
  | some x => exact congrArg some (if_neg (Ne.symm other))

theorem only_other {i : Nat} (inside : component < 1) (other : i ≠ component) (x y : Single) :
    [x][i]? = [y][i]? := by
  cases i with
  | zero => omega
  | succ i => rfl

theorem nextValue?_others {v : Value} (next : nextValue? p component d = some (some v))
    (inside : component < p.kind.components) {i : Nat} (other : i ≠ component) :
    v.components[i]? = p.value.components[i]? := by
  obtain ⟨name, kind, value, default, range⟩ := p
  cases kind <;> cases value
  case scalar.scalar x =>
    obtain ⟨y, _, made⟩ := Option.map_eq_some_iff.mp (Option.some.inj next)
    rw [← made]
    exact only_other inside other y x
  case boolean.boolean b =>
    cases next
    exact only_other inside other _ _
  case vector2.vector2 x y =>
    cases next
    exact steps_other .vector2 other [x, y]
  case vector3.vector3 x y z =>
    cases next
    exact steps_other .vector3 other [x, y, z]
  case color.vector3 x y z =>
    cases next
    exact steps_other .color other [x, y, z]
  all_goals cases next

theorem stepped_nudged (formed : p.WellFormed) (inside : component < p.kind.components)
    (d : Direction) : Nudged component p (p.stepped component d) := by
  refine ⟨stepped_unset p component d, stepped_fits formed component d, ?_⟩
  intro i other
  obtain ⟨v, next, _⟩ := formed.nextValue? component d
  unfold Parameter.stepped Parameter.adjust
  rw [next]
  dsimp only
  by_cases same : v.same p.value
  · rw [if_pos same]
  · rw [if_neg same]
    exact nextValue?_others next inside other

theorem Parameter.WellFormed.adjust_cases (formed : p.WellFormed) (component : Nat)
    (d : Direction) :
    (p.adjust component d = .unchanged ∧ p.stepped component d = p ∧
        p.value.same p.value = true) ∨
      p.adjust component d = .changed (p.stepped component d) ∧
        (p.stepped component d).value.same p.value = false := by
  obtain ⟨v, next, _⟩ := formed.nextValue? component d
  unfold Parameter.stepped
  by_cases same : v.same p.value
  · have stays : p.adjust component d = .unchanged := by
      simp only [Parameter.adjust, next, same, if_true]
    rw [stays]
    exact .inl ⟨rfl, rfl, Value.same_right same⟩
  · have moves : p.adjust component d = .changed { p with value := v } := by
      simp only [Parameter.adjust, next, same, if_false, Bool.false_eq_true]
    rw [moves]
    exact .inr ⟨rfl, Bool.eq_false_iff.mpr same⟩

end Step
end ShaderBench.Param

namespace ShaderBench.Control.Desk
open Gpu Param Editing Session Cursor
variable {translator : Translator}

section Standing

theorem On.kept {d d' : Desk} (on : d.cursor.On d.params) (cursor : d'.cursor = d.cursor)
    (alike : Alike d.session d'.session) : d'.cursor.On d'.params := by
  rw [cursor]
  exact on.unset alike.params

theorem adjust_cursor (d : Desk) (direction : Direction) :
    (d.adjust direction).1.cursor = d.cursor := by
  unfold adjust
  split
  · rfl
  · split <;> rfl

theorem reset_cursor (d : Desk) : d.reset.1.cursor = d.cursor := by
  unfold reset
  split <;> rfl

theorem afterBegin_on {d : Desk} (on : d.cursor.On d.params)
    {begun : Except NoRequest (Session × Assistant.Request)}
    (alike : ∀ s' r, begun = .ok (s', r) → Alike d.session s') :
    (d.afterBegin begun).1.cursor.On (d.afterBegin begun).1.params := by
  have cursor : (d.afterBegin begun).1.cursor = d.cursor := by cases begun <;> rfl
  exact On.kept on cursor (afterBegin_alike d alike)

theorem afterLoad_on {d : Desk} (on : d.cursor.On d.params) {loaded : Session × Bool}
    (idle : loaded.2 = false →
      ∃ history dirtySince, loaded.1 = { d.session with history, dirtySince }) :
    (d.afterLoad loaded).1.cursor.On (d.afterLoad loaded).1.params := by
  unfold afterLoad
  cases changed : loaded.2 with
  | true => exact clamp_on d.cursor loaded.1.params
  | false =>
    obtain ⟨history, dirtySince, same⟩ := idle changed
    have params : loaded.1.params = d.params := by
      rw [same]
      rfl
    exact on.unset (congrArg (List.map Parameter.unset) params)

theorem apply_submitPrompt (d : Desk) (text : String) : d.apply translator (.submitPrompt text) =
    d.clampCursor.afterBegin (d.clampCursor.session.beginGeneration text) := rfl

theorem apply_explainError (d : Desk) : d.apply translator .explainError =
    d.clampCursor.afterBegin d.clampCursor.session.beginExplain := rfl

theorem apply_on (d : Desk) (command : Command) :
    (d.apply translator command).1.cursor.On (d.apply translator command).1.params := by
  have on : d.clampCursor.cursor.On d.clampCursor.params := clamp_on d.cursor d.params
  cases command with
  | nextParam => exact on.next
  | prevParam => exact on.prev
  | nextComponent => exact on.nextComponent
  | undo =>
    rw [apply_undo]
    exact afterLoad_on on undo_idle
  | redo =>
    rw [apply_redo]
    exact afterLoad_on on redo_idle
  | increase => exact On.kept on (adjust_cursor _ .up) (adjust_alike _ .up)
  | decrease => exact On.kept on (adjust_cursor _ .down) (adjust_alike _ .down)
  | resetParam => exact On.kept on (reset_cursor _) (reset_alike _)
  | submitPrompt text =>
    rw [apply_submitPrompt]
    exact afterBegin_on on fun _ _ => beginGeneration_alike
  | explainError =>
    rw [apply_explainError]
    exact afterBegin_on on fun _ _ => beginExplain_alike
  | quit | togglePause | restartTime | movePointer | openPrompt | dismiss => exact on

end Standing

section Reach

/-- What a step does where the cursor stands: it may move that component and tells whether the value
    is another one then. It never meets bounds that are not in order. -/
inductive Stepped (s : Session) (here : Cursor) (direction : Direction) (after : Desk × Outcome) :
    Prop where
  | none (empty : s.params = []) (session : after.1.session = s) (told : after.2 = .nothing)
  | one (p : Parameter) (selected : here.selected s.params = some p)
      (bounds : p.adjust here.component direction ≠ .badRange)
      (session : after.1.session =
        s.changeParams (s.params.set here.index (p.stepped here.component direction)))
      (nudged : Nudged here.component p (p.stepped here.component direction))
      (told : after.2 = if (p.stepped here.component direction).value.same p.value then .nothing
        else .paramsChanged)

/-- What a reset does where the cursor stands: the default is put in the place of the value. -/
inductive Reset (s : Session) (here : Cursor) (after : Desk × Outcome) : Prop where
  | none (empty : s.params = []) (session : after.1.session = s)
  | one (p : Parameter) (selected : here.selected s.params = some p)
      (session : after.1.session =
        s.changeParams (s.params.set here.index { p with value := p.default }))

theorem adjust_stepped {d : Desk} (formed : ∀ p ∈ d.params, p.WellFormed) (direction : Direction) :
    Stepped d.session (d.cursor.clamp d.params) direction (d.clampCursor.adjust direction) := by
  have on : (d.cursor.clamp d.params).On d.params := clamp_on d.cursor d.params
  cases found : (d.cursor.clamp d.params).selected d.params with
  | none =>
    have found' : d.clampCursor.cursor.selected d.clampCursor.params = Option.none := found
    rw [adjust, found']
    exact .none (on.selected_none found) rfl rfl
  | some p =>
    have found' : d.clampCursor.cursor.selected d.clampCursor.params = some p := found
    have inside : (d.cursor.clamp d.params).component < p.kind.components := by
      have component := on.component
      rwa [found] at component
    have formed' : p.WellFormed := formed p (List.mem_of_getElem? found)
    have nudged := stepped_nudged formed' inside direction
    rw [adjust, found']
    dsimp only
    rcases formed'.adjust_cases d.clampCursor.cursor.component direction with
      ⟨unchanged, stays, own⟩ | ⟨changed, other⟩
    · rw [unchanged]
      refine .one p found ?_ ?_ nudged ?_
      · intro bad
        cases unchanged.symm.trans bad
      · exact congrArg (fun p => (d.clampCursor.putSelected p).session) stays.symm
      · exact (if_pos ((congrArg (fun q => q.value.same p.value) stays).trans own)).symm
    · rw [changed]
      refine .one p found ?_ rfl nudged ?_
      · intro bad
        cases changed.symm.trans bad
      · exact (if_neg (ne_true_of_eq_false other)).symm

theorem reset_put (d : Desk) : Reset d.session (d.cursor.clamp d.params) d.clampCursor.reset := by
  have on : (d.cursor.clamp d.params).On d.params := clamp_on d.cursor d.params
  cases found : (d.cursor.clamp d.params).selected d.params with
  | none =>
    have found' : d.clampCursor.cursor.selected d.clampCursor.params = Option.none := found
    rw [reset, found']
    exact .none (on.selected_none found) rfl
  | some p =>
    have found' : d.clampCursor.cursor.selected d.clampCursor.params = some p := found
    rw [reset, found']
    exact .one p found rfl

end Reach
end ShaderBench.Control.Desk

namespace ShaderBench.Control
open Gpu Param Editing Session Desk

def Command.direction? : Command → Option Direction
  | .increase => some .up
  | .decrease => some .down
  | _ => none

/-- In every state of a run and wherever the cursor was left, a command leaves it on the parameters.
    A step or a reset is about the one parameter on which the cursor was brought first, a step about
    one component of it, and a step tells of a change exactly if the value before and the one after
    are not the same. Only undo and redo touch document, history, error or program. -/
theorem commands_local (translator : Translator) (document : String) (settings : Settings.Editor)
    (first : Cursor) (os : List Operation) (cursor : Cursor) (command : Command) :
    let s := (deskAfter translator ⟨.start translator document settings, first⟩ os).session
    let here := cursor.clamp s.params
    let after := Desk.apply translator ⟨s, cursor⟩ command
    after.1.cursor.On after.1.params ∧
      (∀ direction, command.direction? = some direction → Stepped s here direction after) ∧
      (command = .resetParam → Reset s here after) ∧
      (command ≠ .undo → command ≠ .redo →
        after.1.session.document = s.document ∧ after.1.session.history = s.history ∧
          after.1.session.error = s.error ∧ after.1.session.pending = s.pending) := by
  intro s here after
  have formed : ∀ p ∈ s.params, p.WellFormed := fun _ listed =>
    deskAfter_wellFormed document settings first os listed
  refine ⟨apply_on ⟨s, cursor⟩ command, ?_, ?_, ?_⟩
  · intro direction steps
    cases command with
    | increase =>
      cases steps
      exact @adjust_stepped ⟨s, cursor⟩ formed .up
    | decrease =>
      cases steps
      exact @adjust_stepped ⟨s, cursor⟩ formed .down
    | _ => cases steps
  · intro resets
    subst resets
    exact reset_put ⟨s, cursor⟩
  · intro undo redo
    have alike : Alike s after.1.session := apply_alike ⟨s, cursor⟩ undo redo
    exact ⟨alike.document, alike.history, alike.error, alike.pending⟩

end ShaderBench.Control
