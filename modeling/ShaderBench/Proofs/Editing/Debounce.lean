import ShaderBench.Proofs.Editing.Replacement
/-
Edits and the commit that waits for them to go quiet. Edits that follow each other closely are
committed as one, so that a whole burst of them is one step of the history.
-/
namespace ShaderBench.Editing
open Gpu Param Control Assistant History Session

def Way.waits : Way → Bool
  | .edit _ _ | .tick _ => true
  | .commit | .replace _ | .undo | .redo => false

def Way.time? : Way → Option Nat
  | .edit _ now | .tick now => some now
  | .commit | .replace _ | .undo | .redo => none

def Operation.waits (o : Operation) : Bool := o.way?.all Way.waits

def Operation.time? (o : Operation) : Option Nat := o.way?.bind Way.time?

def Way.changeTime? (w : Way) (s : Session) : Option Nat :=
  match w with
  | .edit document now => if document = s.document then none else some now
  | _ => none

def Operation.changeTime? (o : Operation) (s : Session) : Option Nat :=
  o.way?.bind fun w => w.changeTime? s

/-- The times of the edits in a run, but for those that bring the document that is there. -/
def editTimes (translator : Translator) : Desk → List Operation → List Nat
  | _, [] => []
  | d, o :: os =>
    (o.changeTime? d.session).toList ++ editTimes translator (step translator d o) os

def entered (translator : Translator) : Desk → List Operation → List String
  | _, [] => []
  | d, o :: os =>
    let d' := step translator d o
    if d'.session.history = d.session.history then entered translator d' os
    else d'.session.history.current :: entered translator d' os

namespace Session
variable {translator : Translator}

theorem tick_iff (s : Session) (now : Nat) :
    (s.tick now).2 = true ↔ ∃ since, s.dirtySince = some since ∧ s.commitDelay ≤ now - since := by
  unfold tick
  cases s.dirtySince with
  | none => simp
  | some since =>
    simp only [Option.some.injEq, exists_eq_left']
    split <;> simp_all

theorem edit_other {s : Session} {document : String} (other : document ≠ s.document) (now : Nat) :
    (s.edit translator document now).1.dirtySince = some now ∧
      (s.edit translator document now).1.history = s.history := by
  rw [edit, if_neg other, refresh_eq]
  exact ⟨rfl, rfl⟩

theorem commit_document (s : Session) : s.commit.document = s.document := rfl

theorem undo_settles (s : Session) : (s.undo translator).1.dirtySince = none := by
  by_cases dirty : s.isDirty
  · rw [undo, if_pos dirty]
    exact load_dirtySince _ _
  · exact undo_clean (not_dirty_iff.mp dirty)

theorem redo_dirtySince (s : Session) : (s.redo translator).1.dirtySince = s.dirtySince := by
  by_cases dirty : s.isDirty
  · rw [redo, if_pos dirty]
  · have clean : s.dirtySince = none := not_dirty_iff.mp dirty
    rw [redo_clean clean, clean]

theorem go_dirtySince {s : Session} {w : Way} {since : Nat}
    (dirty : (s.go translator w).dirtySince = some since) :
    (w.changeTime? s).or s.dirtySince = some since := by
  cases w with
  | edit document now =>
    rcases eq_or_ne document s.document with same | other
    · rw [go, same, edit_same] at dirty
      rw [Way.changeTime?, if_pos same]
      exact dirty
    · rw [go, (edit_other other now).1] at dirty
      rw [Way.changeTime?, if_neg other]
      exact dirty
  | tick now =>
    rw [go, tick_fst] at dirty
    split at dirty
    · cases dirty
    · exact dirty
  | commit => cases dirty
  | replace document =>
    rw [go, replace_clean] at dirty
    cases dirty
  | undo =>
    rw [go, undo_settles] at dirty
    cases dirty
  | redo =>
    rw [go, redo_dirtySince] at dirty
    exact dirty

end Session

section Dirt
variable {translator : Translator}

theorem Effect.commitDelay {s s' : Session} (effect : Effect translator s s') :
    s'.commitDelay = s.commitDelay := by
  cases effect with
  | tuned params => rfl
  | untuned effect =>
    cases effect with
    | refreshed document history dirtySince inFlight => rw [refresh_eq]
    | noted => rfl

theorem step_commitDelay (d : Desk) (o : Operation) :
    (step translator d o).session.commitDelay = d.session.commitDelay := by
  by_cases arrival : ∃ text, o = .finish (.explained text)
  · obtain ⟨text, same⟩ := arrival
    subst same
    rfl
  · apply (step_effect d o _).commitDelay
    intro text same
    exact arrival ⟨text, same⟩

theorem deskAfter_commitDelay (d : Desk) (os : List Operation) :
    (deskAfter translator d os).session.commitDelay = d.session.commitDelay := by
  induction os generalizing d with
  | nil => rfl
  | cons o os ih => exact (ih (step translator d o)).trans (step_commitDelay d o)

theorem start_commitDelay (document : String) (settings : Settings.Editor) :
    (Session.start translator document settings).commitDelay =
      settings.commitDelay * millisecond := by
  rw [Session.start, refresh_eq]

theorem start_clean (document : String) (settings : Settings.Editor) :
    (Session.start translator document settings).dirtySince = none := by
  rw [Session.start, refresh_eq]

theorem step_dirtySince {d : Desk} {o : Operation} {since : Nat}
    (dirty : (step translator d o).session.dirtySince = some since) :
    (o.changeTime? d.session).or d.session.dirtySince = some since := by
  rw [(step_still d o).dirtySince] at dirty
  rw [Operation.changeTime?]
  cases way : o.way? with
  | none =>
    rw [way] at dirty
    exact dirty
  | some w =>
    rw [way] at dirty
    exact go_dirtySince dirty

theorem deskAfter_dirtySince {d : Desk} {os : List Operation} {since : Nat}
    (dirty : (deskAfter translator d os).session.dirtySince = some since) :
    (editTimes translator d os).getLast?.or d.session.dirtySince = some since := by
  induction os generalizing d with
  | nil => exact dirty
  | cons o os ih =>
    have later := ih dirty
    rw [editTimes, List.getLast?_append, Option.or_assoc]
    cases last : (editTimes translator (step translator d o) os).getLast? with
    | some time =>
      rw [last] at later
      exact later
    | none =>
      rw [last, Option.none_or] at later
      have earlier := step_dirtySince later
      cases change : o.changeTime? d.session with
      | none =>
        rw [change] at earlier
        exact earlier
      | some time =>
        rw [change] at earlier
        exact earlier

end Dirt

section Bursts
variable {translator : Translator}

/-- What an operation that waits can do: nothing about the document, an edit, or the commit of an
    edit that the delay has passed since. -/
inductive Waited (s : Session) (o : Operation) (s' : Session) : Prop where
  | still (change : o.changeTime? s = none) (still : Still s s')
  | edited (now : Nat) (time : o.time? = some now) (change : o.changeTime? s = some now)
      (history : s'.history = s.history) (dirty : s'.dirtySince = some now)
  | committed (since now : Nat) (time : o.time? = some now)
      (change : o.changeTime? s = none) (dirty : s.dirtySince = some since)
      (due : s.commitDelay ≤ now - since) (still : Still s.commit s')

theorem step_waited {d : Desk} {o : Operation} (waits : o.waits = true) :
    Waited d.session o (step translator d o).session := by
  have still := @step_still translator d o
  cases way : o.way? with
  | none =>
    rw [way] at still
    exact .still (by rw [Operation.changeTime?, way]; rfl) still
  | some w =>
    rw [Operation.waits, way] at waits
    rw [way, Option.elim_some] at still
    have change : o.changeTime? d.session = w.changeTime? d.session := by
      rw [Operation.changeTime?, way]
      rfl
    have time : o.time? = w.time? := by
      rw [Operation.time?, way]
      rfl
    cases w with
    | edit document now =>
      rcases eq_or_ne document d.session.document with same | other
      · refine .still (change.trans (if_pos same)) ?_
        rw [go, same, edit_same] at still
        exact still
      · obtain ⟨dirty, history⟩ := @edit_other translator d.session document other now
        refine .edited now time (change.trans (if_neg other)) ?_ ?_
        · exact still.history.trans history
        · exact still.dirtySince.trans dirty
    | tick now =>
      rw [go, tick_fst] at still
      cases ticked : (d.session.tick now).2 with
      | false =>
        rw [ticked] at still
        exact .still change still
      | true =>
        obtain ⟨since, dirty, due⟩ := (tick_iff d.session now).mp ticked
        rw [ticked] at still
        exact .committed since now time change dirty due still
    | commit | replace | undo | redo => cases waits

theorem editTimes_cons (d : Desk) (o : Operation) (os : List Operation) :
    editTimes translator d (o :: os) =
      (o.changeTime? d.session).toList ++ editTimes translator (step translator d o) os := rfl

theorem changeTime?_time {o : Operation} {s : Session} {now : Nat}
    (change : o.changeTime? s = some now) : o.time? = some now := by
  obtain ⟨w, way, changes⟩ := Option.bind_eq_some_iff.mp change
  rw [Operation.time?, way, Option.bind_some]
  cases w with
  | edit document time =>
    rw [Way.changeTime?] at changes
    split at changes
    · cases changes
    · exact changes
  | tick | commit | replace | undo | redo => cases changes

theorem changeTime?_edit {s : Session} {document : String} (other : document ≠ s.document)
    (now : Nat) : (Operation.edit document now).changeTime? s = some now := if_neg other

theorem editTimes_listed {d : Desk} {os : List Operation} {time : Nat}
    (listed : time ∈ editTimes translator d os) : time ∈ os.filterMap Operation.time? := by
  induction os generalizing d with
  | nil => cases listed
  | cons o os ih =>
    rw [editTimes_cons] at listed
    rcases List.mem_append.mp listed with here | later
    · have change : o.changeTime? d.session = some time := Option.mem_toList.mp here
      exact List.mem_filterMap.mpr ⟨o, List.mem_cons_self, changeTime?_time change⟩
    · obtain ⟨o', listed', same⟩ := List.mem_filterMap.mp (ih later)
      exact List.mem_filterMap.mpr ⟨o', List.mem_cons_of_mem o listed', same⟩

theorem entered_cons (d : Desk) (o : Operation) (os : List Operation) :
    entered translator d (o :: os) =
      if (step translator d o).session.history = d.session.history then
        entered translator (step translator d o) os
      else (step translator d o).session.history.current ::
        entered translator (step translator d o) os := rfl

theorem deskAfter_clean {d : Desk} (clean : d.session.dirtySince = none) {os : List Operation}
    (waits : ∀ o ∈ os, o.waits = true) (unedited : editTimes translator d os = []) :
    Still d.session (deskAfter translator d os).session ∧ entered translator d os = [] := by
  induction os generalizing d with
  | nil => exact ⟨.refl d.session, rfl⟩
  | cons o os ih =>
    obtain ⟨first, rest⟩ := List.forall_mem_cons.mp waits
    rw [editTimes_cons] at unedited
    obtain ⟨unchanged, unedited'⟩ := List.append_eq_nil_iff.mp unedited
    cases @step_waited translator d o first with
    | still change still =>
      obtain ⟨later, none⟩ := ih (still.dirtySince.trans clean) rest unedited'
      refine ⟨still.trans later, ?_⟩
      rw [entered_cons, if_pos still.history]
      exact none
    | edited now time change history dirty =>
      rw [change] at unchanged
      cases unchanged
    | committed since now time change dirty due still =>
      rw [clean] at dirty
      cases dirty

/-- What a burst has done to the history that it found: nothing, or it has entered its document. -/
inductive Joined (before : History) (new : List String) (s : Session) : Prop where
  | nothing (none : new = []) (same : s.history = before)
  | entered (one : new = [s.document]) (history : s.history = before.enter s.document)
      (other : s.document ≠ before.current) (clean : s.dirtySince = none)

theorem commit_joined {s : Session} (room : 0 < s.history.depth) :
    Joined s.history (if s.commit.history = s.history then [] else [s.commit.history.current])
      s.commit := by
  have current : s.commit.history.current = s.document :=
    History.commit_current s.history room s.document
  by_cases same : s.history.current = s.document
  · have kept : s.commit.history = s.history := if_pos same
    rw [if_pos kept]
    exact .nothing rfl kept
  · have changed : s.commit.history ≠ s.history := by
      intro kept
      exact same ((congrArg History.current kept).symm.trans current)
    rw [if_neg changed, current]
    exact .entered rfl (if_neg same) (Ne.symm same) rfl

theorem Joined.still {before : History} {new : List String} {s s' : Session}
    (joined : Joined before new s) (still : Still s s') : Joined before new s' := by
  cases joined with
  | nothing none same => exact .nothing none (still.history.trans same)
  | entered one history other clean =>
    rw [← still.document] at one history other
    exact .entered one (still.history.trans history) other (still.dirtySince.trans clean)

/-- Whether an edit comes less than the delay after the one before. -/
def Close (delay earlier later : Nat) : Prop := later < earlier + delay

theorem burst_run {d : Desk} {last : Nat} (dirty : d.session.dirtySince = some last)
    (room : 0 < d.session.history.depth) {os : List Operation}
    (waits : ∀ o ∈ os, o.waits = true)
    (ordered : (last :: os.filterMap Operation.time?).Pairwise (· ≤ ·))
    (close : (last :: editTimes translator d os).IsChain (Close d.session.commitDelay)) :
    Joined d.session.history (entered translator d os) (deskAfter translator d os).session := by
  induction os generalizing d last with
  | nil => exact .nothing rfl rfl
  | cons o os ih =>
    obtain ⟨first, rest⟩ := List.forall_mem_cons.mp waits
    rw [← @step_commitDelay translator d o, editTimes_cons] at close
    rw [entered_cons]
    cases @step_waited translator d o first with
    | still change still =>
      rw [change] at close
      rw [if_pos still.history, ← still.history]
      refine ih (still.dirtySince.trans dirty) (still.history ▸ room) rest ?_ close
      refine ordered.sublist (List.Sublist.cons_cons last ?_)
      exact (List.sublist_cons_self o os).filterMap Operation.time?
    | edited now time change history dirty' =>
      rw [change] at close
      rw [List.filterMap_cons_some time] at ordered
      rw [if_pos history, ← history]
      exact ih dirty' (history ▸ room) rest (List.pairwise_cons.mp ordered).2
        (List.isChain_cons_cons.mp close).2
    | committed since now time change dirty' due still =>
      rw [dirty] at dirty'
      cases dirty'
      rw [change] at close
      rw [List.filterMap_cons_some time] at ordered
      obtain ⟨before, after⟩ := List.pairwise_cons.mp ordered
      -- An edit after the commit would come too late to belong to the burst.
      have unedited : editTimes translator (step translator d o) os = [] := by
        cases edits : editTimes translator (step translator d o) os with
        | nil => rfl
        | cons next later =>
          have listed : next ∈ os.filterMap Operation.time? :=
            editTimes_listed (edits ▸ List.mem_cons_self)
          rw [edits] at close
          have soon : Close _ last next := (List.isChain_cons_cons.mp close).1
          rw [Close, step_commitDelay] at soon
          have passed : last ≤ now := before now List.mem_cons_self
          have late : now ≤ next := (List.pairwise_cons.mp after).1 next listed
          omega
      obtain ⟨later, none⟩ := deskAfter_clean still.dirtySince rest unedited
      have joined := (commit_joined room).still (still.trans later)
      rw [still.history, none]
      exact joined

theorem step_tick (d : Desk) (now : Nat) :
    (step translator d (.tick now)).session.document = d.session.document :=
  tick_document d.session now

theorem step_ticked {d : Desk} {now : Nat} (ticked : (d.session.tick now).2 = true) :
    (step translator d (.tick now)).session = d.session.commit := by
  rw [step, tick_fst, if_pos ticked]

theorem step_change {d : Desk} {edited : String} {now : Nat} (other : edited ≠ d.session.document) :
    (step translator d (.edit edited now)).session.dirtySince = some now ∧
      (step translator d (.edit edited now)).session.history = d.session.history :=
  edit_other other now

theorem burst_joined {d : Desk} (room : 0 < d.session.history.depth) {edited : String} {now : Nat}
    (other : edited ≠ d.session.document) {os : List Operation} (waits : ∀ o ∈ os, o.waits = true)
    (ordered : (now :: os.filterMap Operation.time?).Pairwise (· ≤ ·))
    (close : (editTimes translator d (.edit edited now :: os)).IsChain
      (Close d.session.commitDelay)) :
    Joined d.session.history (entered translator d (.edit edited now :: os))
      (deskAfter translator d (.edit edited now :: os)).session := by
  have change : (Operation.edit edited now).changeTime? d.session = some now :=
    changeTime?_edit other now
  obtain ⟨dirty, history⟩ := @step_change translator d edited now other
  rw [editTimes_cons, change, ← step_commitDelay] at close
  rw [entered_cons, if_pos history, ← history]
  exact burst_run dirty (history ▸ room) waits ordered close

/-- Behind the document of a burst stands what was committed before it. -/
theorem undo_entered {initial : String} {depth : Nat} {before : History} {s : Session}
    (led : (History.start initial depth).Leads before) (two : 2 ≤ depth)
    (history : s.history = before.enter s.document) (other : s.document ≠ before.current)
    (clean : s.dirtySince = none) :
    (s.undo translator).2 = true ∧ (s.undo translator).1.document = before.current := by
  obtain ⟨z, refines, _⟩ := led.stands
  have room : 2 ≤ max depth 1 := by omega
  obtain ⟨behind, back, present, _⟩ := refines.entered room other
  have committed : before.commit s.document = s.history := by
    rw [history, History.commit, if_neg (Ne.symm other)]
  rw [committed] at back
  have there : Arrives (s.undo translator) behind :=
    undo_arrives clean back (present ▸ Ne.symm other)
  exact ⟨there.told, there.document.trans present⟩

end Bursts

/-- In every state of a run a tick commits exactly if the session is dirty and the delay has passed
    since the last edit that brought another document. So a burst, from such an edit on, adds at
    most one entry to the history, its last document, and an undo then leads back to what was
    committed before the burst. -/
theorem burst_one_step (translator : Translator) (document : String) (settings : Settings.Editor)
    (cursor : Cursor) (before : List Operation) (edited : String) (now : Nat)
    (rest : List Operation) (waits : ∀ o ∈ rest, o.waits = true)
    (ordered : (now :: rest.filterMap Operation.time?).Pairwise (· ≤ ·)) :
    let start : Desk := ⟨.start translator document settings, cursor⟩
    let first := deskAfter translator start before
    let delay := settings.commitDelay * millisecond
    let burst := .edit edited now :: rest
    (∀ os time,
      let s := (deskAfter translator start os).session
      (s.tick time).1 = (if (s.tick time).2 then s.commit else s) ∧
        ((s.tick time).2 = true ↔ s.isDirty = true ∧
          ∃ last, (editTimes translator start os).getLast? = some last ∧ delay ≤ time - last)) ∧
      (edited ≠ first.session.document →
        (editTimes translator first burst).IsChain (Close delay) →
          let s := (deskAfter translator first burst).session
          entered translator first burst = [] ∧ s.history = first.session.history ∨
            entered translator first burst = [s.document] ∧
              s.history = first.session.history.enter s.document ∧
              (2 ≤ settings.historyDepth → (s.undo translator).2 = true ∧
                (s.undo translator).1.document = first.session.history.current)) := by
  intro start first delay burst
  have coherent : Coherent translator settings.seeding first.session :=
    deskAfter_coherent (start_coherent document settings) before
  have delays : ∀ os, (deskAfter translator start os).session.commitDelay = delay := by
    intro os
    rw [deskAfter_commitDelay]
    exact start_commitDelay document settings
  constructor
  · intro os time s
    refine ⟨tick_fst s time, ?_⟩
    have since : ∀ last, s.dirtySince = some last →
        (editTimes translator start os).getLast? = some last := by
      intro last dirty
      have clean : start.session.dirtySince = none := start_clean document settings
      have edits := deskAfter_dirtySince dirty
      rw [clean, Option.or_none] at edits
      exact edits
    rw [tick_iff, delays os, isDirty, Option.isSome_iff_exists]
    constructor
    · rintro ⟨last, dirty, due⟩
      exact ⟨⟨last, dirty⟩, last, since last dirty, due⟩
    · rintro ⟨⟨last, dirty⟩, last', edits, due⟩
      rw [since last dirty] at edits
      cases edits
      exact ⟨last, dirty, due⟩
  · intro other close s
    have led : (History.start document settings.historyDepth).Leads first.session.history := by
      rw [← @start_history translator]
      exact deskAfter_leads start before
    have joined := burst_joined coherent.room other waits ordered ((delays before).symm ▸ close)
    cases joined with
    | nothing none same => exact .inl ⟨none, same⟩
    | entered one history new clean =>
      exact .inr ⟨one, history, fun two => undo_entered led two history new clean⟩

theorem two_edits_one_step :
    let translator : Translator := fun _ => .invalid ""
    let settings : Settings.Editor := ⟨2, 750, false, true⟩
    let start : Desk := ⟨.start translator "a" settings, .home⟩
    let rest : List Operation := [.tick 100000000, .edit "c" 200000000, .tick 950000000]
    let burst := .edit "b" 0 :: rest
    let s := (deskAfter translator start burst).session
    (∀ o ∈ rest, o.waits = true) ∧ (0 :: rest.filterMap Operation.time?).Pairwise (· ≤ ·) ∧
      "b" ≠ start.session.document ∧
      (editTimes translator start burst).IsChain (Close (settings.commitDelay * millisecond)) ∧
      2 ≤ settings.historyDepth ∧ entered translator start burst = ["c"] ∧
      (s.undo translator).2 = true ∧ (s.undo translator).1.document = "a" := by
  intro translator settings start rest burst s
  have waits : ∀ o ∈ rest, o.waits = true := by decide
  have ordered : (0 :: rest.filterMap Operation.time?).Pairwise (· ≤ ·) := by decide
  have bursts := (burst_one_step translator "a" settings .home [] "b" 0 rest waits ordered).2
  have at_once : deskAfter translator ⟨.start translator "a" settings, .home⟩ [] = start := rfl
  rw [at_once] at bursts
  have other : "b" ≠ start.session.document := by
    rw [start_document]
    decide
  have initial : start.session.history.current = "a" := by
    rw [start_history]
    rfl
  have started : start.session.commitDelay = 750000000 :=
    (start_commitDelay "a" settings).trans (by decide)
  have coherent : Coherent translator false start.session := start_coherent "a" settings
  -- With this nothing below looks into the session that is started, nor compiles its document.
  clear_value start
  -- Which edits count depends on the documents in between.
  let early := step translator (step translator start (.edit "b" 0)) (.tick 100000000)
  let late := step translator early (.edit "c" 200000000)
  have between : early.session.document = "b" :=
    (step_tick (step translator start (.edit "b" 0)) 100000000).trans (step_edit start "b" 0)
  have other' : "c" ≠ early.session.document := by
    rw [between]
    decide
  have times : editTimes translator start burst = [0, 200000000] := by
    have first : (Operation.edit "b" 0).changeTime? start.session = some 0 :=
      changeTime?_edit other 0
    have second : (Operation.edit "c" 200000000).changeTime? early.session = some 200000000 :=
      changeTime?_edit other' 200000000
    have tick : ∀ now s, (Operation.tick now).changeTime? s = none := fun _ _ => rfl
    change editTimes translator start [.edit "b" 0, .tick 100000000, .edit "c" 200000000,
      .tick 950000000] = _
    rw [editTimes_cons, first, editTimes_cons, tick, editTimes_cons, second, editTimes_cons, tick]
    rfl
  have close : (editTimes translator start burst).IsChain
      (Close (settings.commitDelay * millisecond)) := by
    rw [times]
    simp only [List.isChain_cons_cons, List.isChain_singleton, Close]
    decide
  -- The last tick finds the second edit old enough.
  have delay : late.session.commitDelay = 750000000 :=
    (deskAfter_commitDelay start [.edit "b" 0, .tick 100000000, .edit "c" 200000000]).trans started
  have ticked : (late.session.tick 950000000).2 = true := by
    rw [tick_iff, delay]
    exact ⟨200000000, (step_change other').1, by omega⟩
  have committed : s = late.session.commit := @step_ticked translator late 950000000 ticked
  have document : s.document = "c" := by
    rw [committed, commit_document]
    exact step_edit early "c" 200000000
  have clean : s.isDirty = false := by
    rw [committed]
    rfl
  have outcome : (entered translator start burst = [] ∧ s.history = start.session.history) ∨
      (entered translator start burst = [s.document] ∧
        s.history = start.session.history.enter s.document ∧
        (2 ≤ settings.historyDepth → (s.undo translator).2 = true ∧
          (s.undo translator).1.document = start.session.history.current)) := bursts other close
  rcases outcome with ⟨_, same⟩ | ⟨one, _, undone⟩
  · have current : s.history.current = "c" :=
      ((deskAfter_coherent coherent burst).clean clean).symm.trans document
    rw [same] at current
    exact absurd (initial.symm.trans current) (by decide)
  · obtain ⟨told, back⟩ := undone (by decide)
    have added : entered translator start burst = ["c"] :=
      one.trans (congrArg (· :: []) document)
    exact ⟨waits, ordered, other, close, by decide, added, told, back.trans initial⟩

end ShaderBench.Editing
