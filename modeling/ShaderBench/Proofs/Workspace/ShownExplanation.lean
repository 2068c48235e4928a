import ShaderBench.Proofs.Editing.Explanation
import ShaderBench.Proofs.Workspace.Requests
import ShaderBench.Proofs.Workspace.WriteBack
/-
When an explanation that was asked for is seen: a request for one leaves the alert in place, and an
alert comes before an explanation.
-/
namespace ShaderBench.Workspace
open Control Editing Files Assistant Gpu Session

/-- Whether nothing comes with an event that the request for an explanation has not asked for: it is
    no command, no alert of the screen, and no check that finds a change of the file. -/
def Quiet (w : Workspace) : Event → Prop
  | .command _ | .report _ => False
  | .checkFile now => w.reports now = false
  | _ => True

def Uneventful (translator : Translator) : Workspace → List Event → Prop
  | _, [] => True
  | w, e :: es => w.Quiet e ∧ Uneventful translator (w.step translator e) es

/-- A request for an explanation that is accepted and sent, and the time until its response has been
    taken in and no prompt is open. -/
structure Awaited (translator : Translator) (w : Workspace) (r : Request) (es : List Event) :
    Prop where
  accepted : (w.desk.apply translator .explainError).2 = .request r
  sent : w.worker.isSome
  quiet : Uneventful translator (w.command translator .explainError).1 es
  polled : ((w.command translator .explainError).1.run translator es).session.isBusy = false
  closed : ((w.command translator .explainError).1.run translator es).prompt.isOpen = false

def Replied (translator : Translator) (w : Workspace) (r : Request) (es : List Event)
    (reply : Reply) : Prop :=
  ∃ front back, es = front ++ .reply reply :: back ∧
    (w.run translator front).worker.bind Worker.current = some r

def notes (w : Workspace) : Option RequestKind × Option String × Option String :=
  (w.session.inFlight, w.session.alert, w.session.explanation)

/-- How far a request for an explanation has come: it waits, is at the service, is answered, or its
    response has been taken in. -/
inductive Stage (replied : Reply → Prop) (r : Request) (alert : Option String) (w : Workspace) :
    Prop
  | waits (explanation : Option String) (worker : w.worker = some ⟨[r], none, []⟩)
      (notes : w.notes = (some .explain, alert, explanation))
  | asked (explanation : Option String) (worker : w.worker = some ⟨[], some r, []⟩)
      (notes : w.notes = (some .explain, alert, explanation))
  | answered (explanation : Option String) (reply : Reply) (given : replied reply)
      (worker : w.worker = some ⟨[], none, [r.answer reply]⟩)
      (notes : w.notes = (some .explain, alert, explanation))
  | taken (reply : Reply) (given : replied reply) (text : String)
      (answer : r.answer reply = .explained text) (worker : w.worker = some ⟨[], none, []⟩)
      (notes : w.notes = (none, alert, some text))

def Event.work : Event → Worker → Worker
  | .begin => Worker.begin
  | .reply r => fun worker => worker.reply r
  | _ => id

variable {translator : Translator}

theorem run_concat (w : Workspace) (es : List Event) (e : Event) :
    w.run translator (es ++ [e]) = (w.run translator es).step translator e := by
  rw [run, List.foldl_append]
  rfl

theorem uneventful_concat {w : Workspace} {es : List Event} {e : Event}
    (quiet : Uneventful translator w (es ++ [e])) :
    Uneventful translator w es ∧ (w.run translator es).Quiet e := by
  induction es generalizing w with
  | nil => exact ⟨trivial, quiet.1⟩
  | cons f es ih =>
    obtain ⟨later, last⟩ := ih quiet.2
    exact ⟨⟨quiet.1, later⟩, last⟩

theorem tick_notes (w : Workspace) (now : Nat) : (w.tick now).notes = w.notes := by
  unfold tick Session.tick
  split
  · split <;> rfl
  · rfl

theorem quiet_step {w : Workspace} {e : Event} (quiet : w.Quiet e) (other : e ≠ .receive) :
    (w.step translator e).notes = w.notes ∧
      (w.step translator e).worker = w.worker.map e.work := by
  cases e with
  | receive => exact absurd rfl other
  | command c => exact quiet.elim
  | report alert => exact quiet.elim
  | checkFile now =>
    obtain ⟨session, checked, same⟩ := @checkFile_checked translator w now
    rw [step, same]
    cases checked with
    | waits => exact ⟨rfl, Option.map_id'.symm⟩
    | read due => rw [quiet] at due; cases due
    | unread due => rw [quiet] at due; cases due
  | tick now => exact ⟨tick_notes w now, Option.map_id'.symm⟩
  | write text =>
    rw [step, overwrite]
    split <;> exact ⟨rfl, Option.map_id'.symm⟩
  | begin | reply => exact ⟨rfl, rfl⟩
  | notify | takeProgram | type => exact ⟨rfl, Option.map_id'.symm⟩

theorem receive_nothing {w : Workspace} {waiting : List Request} {current : Option Request}
    (worker : w.worker = some ⟨waiting, current, []⟩) : w.receive translator = w := by
  simp only [receive, worker]

theorem Event.work_cases (e : Event) : e = .begin ∨ (∃ r, e = .reply r) ∨ e.work = id := by
  cases e with
  | begin => exact .inl rfl
  | reply r => exact .inr (.inl ⟨r, rfl⟩)
  | _ => exact .inr (.inr rfl)

section Stages
variable {replied replied' : Reply → Prop} {r : Request} {alert : Option String} {w t : Workspace}

theorem Stage.keeps (stage : Stage replied r alert w)
    (more : ∀ reply, replied reply → replied' reply) (notes : t.notes = w.notes)
    (worker : t.worker = w.worker) : Stage replied' r alert t := by
  cases stage with
  | waits explanation held noted =>
    exact .waits explanation (worker.trans held) (notes.trans noted)
  | asked explanation held noted =>
    exact .asked explanation (worker.trans held) (notes.trans noted)
  | answered explanation reply given held noted =>
    exact .answered explanation reply (more reply given) (worker.trans held) (notes.trans noted)
  | taken reply given text answer held noted =>
    exact .taken reply (more reply given) text answer (worker.trans held) (notes.trans noted)

/-- Of the four stages only the third one has a response to take in. -/
theorem Stage.receive (stage : Stage replied r alert w) (explains : r.kind = .explain) :
    Stage replied r alert (w.receive translator) := by
  cases stage with
  | waits explanation worker notes =>
    rw [receive_nothing worker]
    exact .waits explanation worker notes
  | asked explanation worker notes =>
    rw [receive_nothing worker]
    exact .asked explanation worker notes
  | answered explanation reply given worker notes =>
    obtain ⟨text, answer⟩ : ∃ text, r.answer reply = .explained text := by
      cases r with
      | generate prompt code => cases explains
      | explain code error => exact ⟨_, rfl⟩
    have taken : w.receive translator = { w.setSession
        { w.session with inFlight := none, explanation := some text } with
          worker := some ⟨[], none, []⟩ } := by
      simp only [Workspace.receive, worker, answer]
      rfl
    rw [taken]
    refine .taken reply given text answer rfl ?_
    exact congrArg (fun noted => (none, noted.2.1, some text)) notes
  | taken reply given text answer worker notes =>
    rw [receive_nothing worker]
    exact .taken reply given text answer worker notes

theorem Stage.step (stage : Stage replied r alert w) {e : Event} (quiet : w.Quiet e)
    (explains : r.kind = .explain) (more : ∀ reply, replied reply → replied' reply)
    (now : ∀ reply, e = .reply reply → w.worker.bind Worker.current = some r → replied' reply) :
    Stage replied' r alert (w.step translator e) := by
  by_cases receives : e = .receive
  · subst receives
    exact (stage.receive explains).keeps more rfl rfl
  -- All else leaves the notes as they are, and the worker too unless it begins or is replied to.
  obtain ⟨same, work⟩ := @quiet_step translator w e quiet receives
  rcases Event.work_cases e with rfl | ⟨given, rfl⟩ | rest
  · cases stage with
    | waits explanation worker notes =>
      exact .asked explanation (by rw [work, worker]; rfl) (same.trans notes)
    | asked explanation worker notes =>
      exact .asked explanation (by rw [work, worker]; rfl) (same.trans notes)
    | answered explanation reply given worker notes =>
      exact .answered explanation reply (more reply given) (by rw [work, worker]; rfl)
        (same.trans notes)
    | taken reply given text answer worker notes =>
      exact .taken reply (more reply given) text answer (by rw [work, worker]; rfl)
        (same.trans notes)
  · cases stage with
    | waits explanation worker notes =>
      exact .waits explanation (by rw [work, worker]; rfl) (same.trans notes)
    | asked explanation worker notes =>
      have replied := now given rfl (by rw [worker]; rfl)
      exact .answered explanation given replied (by rw [work, worker]; rfl) (same.trans notes)
    | answered explanation reply given' worker notes =>
      exact .answered explanation reply (more reply given') (by rw [work, worker]; rfl)
        (same.trans notes)
    | taken reply given' text answer worker notes =>
      exact .taken reply (more reply given') text answer (by rw [work, worker]; rfl)
        (same.trans notes)
  · rw [rest, Option.map_id] at work
    exact stage.keeps more same work

end Stages

theorem stage_run {r : Request} {alert : Option String} {w : Workspace}
    (explains : r.kind = .explain)
    (first : Stage (Replied translator w r []) r alert w) {es : List Event}
    (quiet : Uneventful translator w es) :
    Stage (Replied translator w r es) r alert (w.run translator es) := by
  -- From the end, since the last reply is judged by what the worker held just before it.
  induction es using List.reverseRecOn with
  | nil => exact first
  | append_singleton es e ih =>
    obtain ⟨earlier, last⟩ := uneventful_concat quiet
    rw [run_concat]
    refine (ih earlier).step last explains ?_ ?_
    · rintro reply ⟨front, back, rfl, asked⟩
      exact ⟨front, back ++ [e], by simp, asked⟩
    · rintro reply rfl asked
      exact ⟨es, [], rfl, asked⟩

theorem beginExplain_kind {s s' : Session} {r : Request} (begun : s.beginExplain = .ok (s', r)) :
    r.kind = .explain := by
  unfold beginExplain at begun
  split at begun
  · cases begun
  · split at begun
    · cases begun
    · cases begun
      rfl

theorem explain_sent {w : Workspace} {r : Request}
    (accepted : (w.desk.apply translator .explainError).2 = .request r) {worker : Worker}
    (held : w.worker = some worker) :
    w.session.inFlight = none ∧ r.kind = .explain ∧
      (w.command translator .explainError).1 =
        { w with
          desk := ⟨{ w.session with inFlight := some .explain }, w.desk.clampCursor.cursor⟩
          worker := some (worker.submit r) } := by
  have applied : w.desk.apply translator .explainError =
      w.desk.clampCursor.afterBegin w.session.beginExplain := rfl
  unfold command
  rw [applied] at accepted ⊢
  cases begun : w.session.beginExplain with
  | error e =>
    rw [begun] at accepted
    cases accepted
  | ok pair =>
    obtain ⟨s, r'⟩ := pair
    rw [begun] at accepted
    cases accepted
    obtain ⟨idle, same⟩ := beginExplain_eq begun
    have explains := beginExplain_kind begun
    rw [explains] at same
    subst same
    refine ⟨idle, explains, ?_⟩
    simp only [Desk.afterBegin, submit, held]

theorem Accounted.idle {w : Workspace} (accounted : w.Accounted) (idle : w.session.inFlight = none)
    {worker : Worker} (held : w.worker = some worker) : worker = .idle := by
  have none : worker.kinds = [] := by
    rw [Accounted, outstanding, held, idle] at accounted
    exact accounted
  obtain ⟨waiting, current, done⟩ := worker
  simp only [Worker.kinds, List.append_eq_nil_iff, List.map_eq_nil_iff,
    Option.toList_eq_nil_iff] at none
  obtain ⟨rfl, rfl, rfl⟩ := none
  rfl

/-- Where nothing is awaited or typed, an alert is the status, and without one an explanation. -/
theorem status_explained {w : Workspace} (closed : w.prompt.isOpen = false) {alert : Option String}
    {text : String} (notes : w.notes = (none, alert, some text)) :
    w.status = alert.elim (.info (onOneLine " " text)) .alert := by
  simp only [Workspace.notes, Prod.mk.injEq] at notes
  obtain ⟨idle, noted, explained⟩ := notes
  have free : w.session.isGenerating = false ∧ w.session.isBusy = false := by
    simp [isGenerating, isBusy, idle]
  simp only [status, closed, free, noted, explained, Bool.false_eq_true, if_false]
  cases alert <;> rfl

theorem awaited_answer {w : Workspace} {e : CompileError} (failing : w.session.error = some e)
    (idle : w.session.inFlight = none) (held : w.worker = some .idle)
    (closed : w.prompt.isOpen = false) (reply : Reply) :
    Awaited translator w (.explain w.session.document e.message)
        [.begin, .reply reply, .receive] ∧
      ((w.command translator .explainError).1.run translator
        [.begin, .reply reply, .receive]).notes =
          (none, w.session.alert, some (explanationOf reply)) := by
  have begun : w.session.beginExplain = .ok ({ w.session with inFlight := some .explain },
      .explain w.session.document e.message) := by
    simp only [beginExplain, failing, isBusy, idle]
    rfl
  have applied : w.desk.apply translator .explainError =
      w.desk.clampCursor.afterBegin w.session.beginExplain := rfl
  have accepted : (w.desk.apply translator .explainError).2 =
      .request (.explain w.session.document e.message) := by
    rw [applied, begun]
    rfl
  obtain ⟨_, _, same⟩ := explain_sent accepted held
  refine ⟨⟨accepted, by rw [held]; rfl, ⟨trivial, trivial, trivial, trivial⟩, ?_, ?_⟩, ?_⟩
  · rw [same]
    rfl
  · rw [same]
    exact closed
  · rw [same]
    rfl

/-- When a request for an explanation is answered, and nothing else has happened, the answer is the
    status just if there was no alert when it was made; an alert that there was is seen instead. -/
theorem explanation_shown_iff (translator : Translator) (setting : Setting) (document : String)
    (settings : Settings.Editor) (before : List Event) (r : Request) (es : List Event) :
    let w := (start translator setting document settings).run translator before
    let sent := (w.command translator .explainError).1
    Awaited translator w r es →
      ∃ reply text, Replied translator sent r es reply ∧ r.answer reply = .explained text ∧
        ((sent.run translator es).status = .info (onOneLine " " text) ↔ w.session.alert = none) ∧
        ∀ alert, w.session.alert = some alert →
          (sent.run translator es).status = .alert alert := by
  intro w sent awaited
  obtain ⟨worker, held⟩ := Option.isSome_iff_exists.mp awaited.sent
  obtain ⟨idle, explains, same⟩ := explain_sent awaited.accepted held
  -- Nothing was outstanding, so that the worker has this request and no other.
  have accounted : w.Accounted :=
    (accounted_start setting document settings).run translator before
  rw [accounted.idle idle held] at same
  have first : Stage (Replied translator sent r []) r w.session.alert sent :=
    .waits w.session.explanation (congrArg Workspace.worker same) (congrArg Workspace.notes same)
  have polled := awaited.polled
  rw [isBusy, Option.isSome_eq_false_iff, Option.isNone_iff_eq_none] at polled
  cases stage_run explains first awaited.quiet with
  | waits explanation _ noted | asked explanation _ noted | answered explanation _ _ _ noted =>
    have busy := congrArg Prod.fst noted
    rw [Workspace.notes, polled] at busy
    cases busy
  | taken reply given text answer _ noted =>
    have shown := status_explained awaited.closed noted
    refine ⟨reply, text, given, answer, ?_, ?_⟩
    · rw [shown]
      cases w.session.alert with
      | none => simp
      | some alert => simp
    · intro alert same
      rw [shown, same]
      rfl

def missingThing : String := "float4 mainImage(float2 uv) \x7b return float4(missingThing); \x7d\n"

def missingStart : Workspace :=
  start endReader (shaderSetting missingThing) missingThing ⟨100, 750, false, true⟩

theorem missingStart_session : missingStart.session =
    Session.start endReader missingThing ⟨100, 750, false, true⟩ :=
  start_session _ _ _

theorem missingStart_fails : ∃ e, missingStart.session.error = some e := by
  have failing : complaint? endReader missingThing ≠ none := by
    rw [Ne, @complaint_endReader missingThing '\n' (by decide +kernel) (by decide +kernel)]
    decide
  rw [missingStart_session, Session.start, refresh_eq]
  exact Option.ne_none_iff_exists'.mp failing

theorem missingStart_quiet :
    missingStart.session.inFlight = none ∧ missingStart.session.alert = none := by
  rw [missingStart_session, Session.start, refresh_eq]
  exact ⟨rfl, rfl⟩

theorem first_explanation_shown :
    let es : List Event := [.begin, .reply (.ok "Declare\nit."), .receive]
    ∃ r reply text, Awaited endReader missingStart r es ∧
      Replied endReader (missingStart.command endReader .explainError).1 r es reply ∧
      r.answer reply = .explained text ∧
      ((missingStart.command endReader .explainError).1.run endReader es).status =
        .info (onOneLine " " text) := by
  intro es
  obtain ⟨e, failing⟩ := missingStart_fails
  obtain ⟨idle, none⟩ := missingStart_quiet
  have awaited := (@awaited_answer endReader missingStart e failing idle rfl rfl
    (.ok "Declare\nit.")).1
  obtain ⟨reply, text, given, answer, shown, _⟩ :=
    explanation_shown_iff endReader (shaderSetting missingThing) missingThing
      ⟨100, 750, false, true⟩ [] _ es awaited
  exact ⟨_, reply, text, awaited, given, answer, shown.mpr none⟩

theorem run_emptyPrompt (w : Workspace) :
    w.run translator [.command (.submitPrompt "")] =
      { w with desk := ⟨w.session.report "prompt is empty", w.desk.clampCursor.cursor⟩ } := by
  have refused : w.session.beginGeneration "" = .error .emptyPrompt := by
    rw [beginGeneration, if_pos (by decide)]
  have applied : w.desk.apply translator (.submitPrompt "") =
      w.desk.clampCursor.afterBegin (w.session.beginGeneration "") := rfl
  change (w.command translator (.submitPrompt "")).1 = _
  unfold command
  rw [applied, refused]
  rfl

theorem hidden_answer {w : Workspace} {e : CompileError} (failing : w.session.error = some e)
    (idle : w.session.inFlight = none) (held : w.worker = some .idle)
    (closed : w.prompt.isOpen = false) (reply : Reply) :
    let es : List Event := [.begin, .reply reply, .receive]
    let refused := w.run translator [.command (.submitPrompt "")]
    ∃ r, Awaited translator refused r es ∧ r.answer reply = .explained (explanationOf reply) ∧
      ((refused.command translator .explainError).1.run translator es).status =
        .alert "prompt is empty" := by
  intro es refused
  have same : refused = { w with
      desk := ⟨w.session.report "prompt is empty", w.desk.clampCursor.cursor⟩ } :=
    run_emptyPrompt w
  clear_value refused
  subst same
  obtain ⟨awaited, notes⟩ := @awaited_answer translator
    { w with desk := ⟨w.session.report "prompt is empty", w.desk.clampCursor.cursor⟩ } e
    failing idle held closed reply
  refine ⟨_, awaited, rfl, ?_⟩
  rw [status_explained awaited.closed notes]
  rfl

theorem explanation_hidden :
    let es : List Event := [.begin, .reply (.ok "Declare\nit."), .receive]
    let w := missingStart.run endReader [.command (.submitPrompt "")]
    ∃ r, Awaited endReader w r es ∧ r.answer (.ok "Declare\nit.") = .explained "Declare\nit." ∧
      ((w.command endReader .explainError).1.run endReader es).status =
        .alert "prompt is empty" := by
  obtain ⟨e, failing⟩ := missingStart_fails
  have answer : explanationOf (.ok "Declare\nit.") = "Declare\nit." := by decide
  obtain ⟨r, awaited, answered, hidden⟩ := @hidden_answer endReader missingStart e failing
    missingStart_quiet.1 rfl rfl (.ok "Declare\nit.")
  exact ⟨r, awaited, answered.trans (congrArg Response.explained answer), hidden⟩

end ShaderBench.Workspace
