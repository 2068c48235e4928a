import ShaderBench.Proofs.Editing.Coherence
import ShaderBench.Proofs.Files.Folder
import ShaderBench.Proofs.Workspace.Run
/-
What a save writes over: a text that was the document before, or what another program has written
since the file was last read or written, as long as the watch has not reported it.
-/
namespace ShaderBench.Files

theorem Burst.check_waits {b : Burst} {now : Nat} (waits : (b.check now).2 = false) :
    (b.check now).1 = b := by
  unfold check at waits ⊢
  cases last : b.last with
  | none => rfl
  | some time =>
    rw [last] at waits
    dsimp only at waits ⊢
    split at waits
    · cases waits
    · rename_i fresh
      rw [if_neg fresh]

namespace Watcher

def awaits (w : Watcher) : Bool := w.notices.any w.concerns || w.burst.last.isSome

theorem awaits_notify {w : Watcher} {n : Notice} (awaits : w.awaits ∨ w.concerns n) :
    (w.notify n).awaits := by
  have concerns : (w.notify n).concerns = w.concerns := rfl
  rw [Watcher.awaits, concerns, notify, List.any_append, List.any_cons, List.any_nil,
    Bool.or_false]
  rcases awaits with before | now
  · rw [Watcher.awaits] at before
    cases noticed : w.notices.any w.concerns with
    | true => rfl
    | false =>
      rw [noticed, Bool.false_or] at before
      simp [before]
  · simp [now]

theorem awaits_check {w : Watcher} {now : Nat} (waits : (w.check now).2 = false)
    (awaits : w.awaits) : (w.check now).1.awaits := by
  unfold check at waits ⊢
  dsimp only at waits ⊢
  rw [Watcher.awaits, Burst.check_waits waits]
  rw [Watcher.awaits] at awaits
  split
  · exact Bool.or_true _
  · rename_i quiet
    rw [Bool.eq_false_iff.mpr quiet, Bool.false_or] at awaits
    simp [awaits]

end Watcher
end ShaderBench.Files

namespace ShaderBench.Assistant

theorem dropFences_bare {s : List Char} (bare : '`' ∉ s) : dropFences s = s := by
  induction s with
  | nil => rw [dropFences]
  | cons c s ih =>
    rw [List.mem_cons, not_or] at bare
    rw [dropFences, ih bare.2]
    intro rest first
    exact absurd first.symm bare.1

theorem documentOf_bare {text : String} (bare : '`' ∉ text.toList)
    (trimmed : Text.trim text.toList = text.toList) (some : text.toList ≠ []) :
    documentOf (.ok text) = .ok text := by
  have same : code text.toList = text.toList := by
    rw [code, dropFences_bare bare, trimmed]
  have full : text.toList.isEmpty = false := by
    rw [List.isEmpty_eq_false_iff]
    exact some
  change (if (code text.toList).isEmpty then _ else _) = _
  rw [same, full, String.ofList_toList]
  rfl

end ShaderBench.Assistant

namespace ShaderBench.Workspace
open Control Editing Files Assistant Gpu
variable {translator : Translator}

def awaits (w : Workspace) : Bool := w.watcher.any Watcher.awaits

def nextResponse? (w : Workspace) : Option Response := w.worker.bind fun worker => worker.done.head?

def saves (translator : Translator) (w : Workspace) : Event → Bool
  | .command c => w.writeBack && (w.desk.apply translator c).2 = .documentChanged
  | .receive => w.writeBack && w.nextResponse?.any fun r => (w.session.finish translator r).2
  | _ => false

def Event.inside : Event → Bool
  | .write _ | .notify _ | .checkFile _ => false
  | _ => true

structure Aside (w w' : Workspace) : Prop where
  files : w'.files = w.files
  path : w'.path = w.path
  watcher : w'.watcher = w.watcher

theorem save_off {w : Workspace} (off : w.writeBack = false) : w.save = w := by
  rw [save, off]
  rfl

theorem receive_cases (w : Workspace) :
    w.nextResponse? = none ∧ w.receive translator = w ∨
      ∃ r worker, w.nextResponse? = some r ∧
        w.receive translator = finish translator { w with worker } r := by
  unfold receive
  split
  · rename_i waiting current r done held
    right
    refine ⟨r, some ⟨waiting, current, done⟩, ?_, rfl⟩
    rw [nextResponse?, held]
    rfl
  · rename_i none
    left
    refine ⟨?_, rfl⟩
    cases held : w.worker with
    | none => rw [nextResponse?, held, Option.bind_none]
    | some worker =>
      obtain ⟨waiting, current, done⟩ := worker
      cases done with
      | nil => rw [nextResponse?, held, Option.bind_some, List.head?_nil]
      | cons r done => exact absurd held (none waiting current r done)

theorem awaits_notify {w : Workspace} {n : Notice}
    (awaits : w.awaits ∨ w.watcher.any (·.concerns n)) : (w.notify n).awaits := by
  unfold Workspace.awaits at awaits ⊢
  unfold notify
  cases held : w.watcher with
  | none => simp [held] at awaits
  | some watcher =>
    rw [held] at awaits
    exact Watcher.awaits_notify awaits

/-- All that an event with a save does besides is at the desk or with the worker. -/
theorem step_saves {w : Workspace} {e : Event} (saves : w.saves translator e = true) :
    ∃ w', Aside w w' ∧ w'.writeBack = true ∧ w.step translator e = w'.save := by
  cases e with
  | command c =>
    rw [Workspace.saves, Bool.and_eq_true, decide_eq_true_eq] at saves
    refine ⟨{ w with desk := (w.desk.apply translator c).1 }, ⟨rfl, rfl, rfl⟩, saves.1, ?_⟩
    rw [step, command]
    dsimp only
    rw [saves.2]
  | receive =>
    rw [Workspace.saves, Bool.and_eq_true] at saves
    obtain ⟨on, changed⟩ := saves
    rcases @receive_cases translator w with ⟨none, _⟩ | ⟨r, worker, next, received⟩
    · rw [none] at changed
      cases changed
    · rw [next, Option.any_some] at changed
      refine ⟨({ w with worker } : Workspace).setSession (w.session.finish translator r).1,
        ⟨rfl, rfl, rfl⟩, on, ?_⟩
      rw [step, received, finish]
      exact if_pos changed
  | _ => cases saves

theorem step_aside {w : Workspace} {e : Event} (inside : e.inside)
    (unsaved : w.saves translator e = false) : Aside w (w.step translator e) := by
  cases e with
  | write | checkFile | notify => cases inside
  | command c =>
    rw [Workspace.saves, Bool.and_eq_false_iff, decide_eq_false_iff_not] at unsaved
    rw [step, command]
    dsimp only
    split
    · exact ⟨rfl, rfl, rfl⟩
    · exact ⟨rfl, rfl, rfl⟩
    · rename_i changed
      rcases unsaved with off | unchanged
      · rw [@save_off { w with desk := (w.desk.apply translator c).1 } off]
        exact ⟨rfl, rfl, rfl⟩
      · exact absurd changed unchanged
    · unfold submit
      split <;> exact ⟨rfl, rfl, rfl⟩
    · exact ⟨rfl, rfl, rfl⟩
    · exact ⟨rfl, rfl, rfl⟩
  | receive =>
    rw [Workspace.saves, Bool.and_eq_false_iff] at unsaved
    rcases @receive_cases translator w with ⟨_, same⟩ | ⟨r, worker, next, received⟩
    · rw [step, same]
      exact ⟨rfl, rfl, rfl⟩
    · rw [next, Option.any_some] at unsaved
      rw [step, received, finish]
      split
      · rename_i changed
        rcases unsaved with off | unchanged
        · rw [save_off]
          · exact ⟨rfl, rfl, rfl⟩
          · exact off
        · exact absurd changed (Bool.eq_false_iff.mp unchanged)
      · exact ⟨rfl, rfl, rfl⟩
  | _ => exact ⟨rfl, rfl, rfl⟩

theorem save_reads {w : Workspace} {old : String} (on : w.writeBack = true)
    (readable : w.files.read w.path = .ok old) :
    w.save.files.read w.path = .ok w.session.document ∧ w.save.session = w.session ∧
      w.save.path = w.path ∧ w.save.watcher = w.watcher := by
  obtain ⟨files, written, reads⟩ := Folder.write_read readable w.session.document
  rw [save, if_pos on, written]
  exact ⟨reads, rfl, rfl, rfl⟩

theorem saved_reads {w : Workspace} {old : String} (readable : w.files.read w.path = .ok old)
    {e : Event} (saves : w.saves translator e = true) :
    (w.step translator e).files.read (w.step translator e).path =
      .ok (w.step translator e).session.document := by
  obtain ⟨w', aside, on, saved⟩ := step_saves saves
  rw [← aside.files, ← aside.path] at readable
  obtain ⟨reads, session, path, _⟩ := save_reads on readable
  rw [saved, path, session]
  exact reads

theorem checkFile_reports {w : Workspace} {text : String} {now : Nat}
    (readable : w.files.read w.path = .ok text) (reports : w.reports now = true) :
    w.step translator (.checkFile now) =
      { w.setSession (w.session.edit translator text now).1 with
        watcher := w.watcher.map fun watcher => (watcher.check now).1 } := by
  obtain ⟨session, checked, same⟩ := @checkFile_checked translator w now
  cases checked with
  | waits quiet =>
    rw [reports] at quiet
    cases quiet
  | read _ readable' =>
    rw [readable] at readable'
    cases readable'
    exact same
  | unread _ unreadable =>
    rw [readable] at unreadable
    cases unreadable

theorem checkFile_waits {w : Workspace} {now : Nat} (waits : w.reports now = false) :
    w.step translator (.checkFile now) =
      { w with watcher := w.watcher.map fun watcher => (watcher.check now).1 } := by
  obtain ⟨session, checked, same⟩ := @checkFile_checked translator w now
  cases checked with
  | waits => exact same
  | read due =>
    rw [waits] at due
    cases due
  | unread due =>
    rw [waits] at due
    cases due

theorem awaits_checkFile {w : Workspace} {now : Nat} (waits : w.reports now = false)
    (awaits : w.awaits) : (w.step translator (.checkFile now)).awaits := by
  rw [checkFile_waits waits]
  unfold Workspace.awaits at awaits ⊢
  unfold reports at waits
  cases held : w.watcher with
  | none =>
    rw [held] at awaits
    cases awaits
  | some watcher =>
    rw [held, Option.any_some] at awaits waits
    exact Watcher.awaits_check waits awaits

/-- What another program has written last, until the file is read or written here. -/
structure Foreign where
  text : String
  noticed : Bool

/-- A run so far: where it stands, the document of each state, the present one first, and what the
    file holds that the session has not seen. -/
structure Trace where
  workspace : Workspace
  documents : List String
  foreign : Option Foreign

namespace Trace

def start (w : Workspace) : Trace := ⟨w, [w.session.document], none⟩

def foreignAfter (translator : Translator) (t : Trace) : Event → Option Foreign
  | .write text => some ⟨text, false⟩
  | .notify n =>
    if t.workspace.watcher.any (·.concerns n) then t.foreign.map fun f => { f with noticed := true }
    else t.foreign
  | .checkFile now =>
    if t.workspace.watcher.any fun watcher => (watcher.check now).2 then none else t.foreign
  | e => if t.workspace.saves translator e then none else t.foreign

def next (translator : Translator) (t : Trace) (e : Event) : Trace :=
  let w := t.workspace.step translator e
  ⟨w, w.session.document :: t.documents, t.foreignAfter translator e⟩

def run (translator : Translator) (w : Workspace) (es : List Event) : Trace :=
  es.foldl (next translator) (start w)

/-- A text was the document before, or it is what another program has written last, of which the
    watch has not been told or which it is about to report. -/
def Known (t : Trace) (text : String) : Prop :=
  text ∈ t.documents ∨
    ∃ noticed, t.foreign = some ⟨text, noticed⟩ ∧ (noticed = true → t.workspace.awaits = true)

def Sound (t : Trace) : Prop :=
  ∃ text, t.workspace.files.read t.workspace.path = .ok text ∧ t.Known text

theorem Known.next {t : Trace} {text : String} (known : t.Known text) {e : Event}
    (foreign : t.foreignAfter translator e = t.foreign)
    (awaits : t.workspace.awaits → (t.workspace.step translator e).awaits) :
    (t.next translator e).Known text := by
  rcases known with before | ⟨noticed, written, waits⟩
  · exact .inl (List.mem_cons_of_mem _ before)
  · exact .inr ⟨noticed, foreign.trans written, fun told => awaits (waits told)⟩

theorem Sound.saved {t : Trace} (sound : t.Sound) {e : Event}
    (saves : t.workspace.saves translator e = true) : (t.next translator e).Sound := by
  obtain ⟨old, readable, _⟩ := sound
  exact ⟨_, saved_reads readable saves, .inl List.mem_cons_self⟩

theorem Sound.aside {t : Trace} (sound : t.Sound) {e : Event}
    (aside : Aside t.workspace (t.workspace.step translator e))
    (foreign : t.foreignAfter translator e = t.foreign) : (t.next translator e).Sound := by
  obtain ⟨text, readable, known⟩ := sound
  refine ⟨text, ?_, known.next foreign ?_⟩
  · change (t.workspace.step translator e).files.read (t.workspace.step translator e).path = _
    rw [aside.files, aside.path]
    exact readable
  · intro awaits
    rw [Workspace.awaits, aside.watcher]
    exact awaits

theorem Sound.written {t : Trace} (sound : t.Sound) (text : String) :
    (t.next translator (.write text)).Sound := by
  obtain ⟨old, readable, _⟩ := sound
  obtain ⟨files, written, reads⟩ := Folder.write_read readable text
  refine ⟨text, ?_, .inr ⟨false, rfl, fun told => nomatch told⟩⟩
  simp only [Trace.next, step, overwrite, written]
  exact reads

theorem Sound.notified {t : Trace} (sound : t.Sound) (n : Notice) :
    (t.next translator (.notify n)).Sound := by
  obtain ⟨text, readable, known⟩ := sound
  refine ⟨text, readable, ?_⟩
  by_cases concerned : t.workspace.watcher.any (·.concerns n)
  · rcases known with before | ⟨noticed, written, _⟩
    · exact .inl (List.mem_cons_of_mem _ before)
    · refine .inr ⟨true, ?_, fun _ => awaits_notify (.inr concerned)⟩
      simp only [Trace.next, foreignAfter, concerned, written]
      rfl
  · refine known.next ?_ fun awaits => awaits_notify (.inl awaits)
    simp only [foreignAfter, concerned]
    rfl

theorem Sound.checked {t : Trace} (sound : t.Sound) (now : Nat) :
    (t.next translator (.checkFile now)).Sound := by
  obtain ⟨text, readable, known⟩ := sound
  cases reports : t.workspace.reports now with
  | true =>
    -- The file is read, so that what is in it is the document now.
    have reloaded := @checkFile_reports translator t.workspace text now readable reports
    refine ⟨text, ?_, .inl ?_⟩
    · simp only [Trace.next, reloaded]
      exact readable
    · simp only [Trace.next, reloaded]
      exact List.mem_cons.mpr (.inl (t.workspace.session.edit_document text now).symm)
  | false =>
    -- A change that was noticed is still awaited.
    refine ⟨text, ?_, known.next ?_ (awaits_checkFile reports)⟩
    · simp only [Trace.next, checkFile_waits reports]
      exact readable
    · rw [foreignAfter]
      exact if_neg (Bool.eq_false_iff.mp reports)

theorem foreignAfter_inside (t : Trace) {e : Event} (inside : e.inside) :
    t.foreignAfter translator e =
      if t.workspace.saves translator e then none else t.foreign := by
  cases e with
  | write | checkFile | notify => cases inside
  | _ => rfl

theorem Sound.inside {t : Trace} (sound : t.Sound) {e : Event} (inside : e.inside) :
    (t.next translator e).Sound := by
  cases saves : t.workspace.saves translator e with
  | true => exact sound.saved saves
  | false =>
    apply sound.aside (step_aside inside saves)
    rw [foreignAfter_inside t inside, saves]
    rfl

theorem Sound.next {t : Trace} (sound : t.Sound) (e : Event) : (t.next translator e).Sound := by
  cases e with
  | write text => exact sound.written text
  | notify n => exact sound.notified n
  | checkFile now => exact sound.checked now
  | _ => exact sound.inside rfl

theorem Sound.run {w : Workspace} (readable : w.files.read w.path = .ok w.session.document)
    (es : List Event) : (run translator w es).Sound := by
  have first : (start w).Sound := ⟨w.session.document, readable, .inl List.mem_cons_self⟩
  suffices every : ∀ t : Trace, t.Sound → (es.foldl (Trace.next translator) t).Sound from
    every _ first
  induction es with
  | nil => exact fun t sound => sound
  | cons e es ih => exact fun t sound => ih (t.next translator e) (sound.next e)

end Trace

theorem files_unsaved {w : Workspace} {e : Event} (unsaved : w.saves translator e = false) :
    (∃ text, e = .write text) ∨ (w.step translator e).files = w.files := by
  cases e with
  | write text => exact .inl ⟨text, rfl⟩
  | notify n => exact .inr rfl
  | checkFile now =>
    obtain ⟨session, _, same⟩ := @checkFile_checked translator w now
    right
    rw [step, same]
    rfl
  | _ => exact .inr (step_aside rfl unsaved).files

theorem command_submitPrompt {w : Workspace} {prompt : String}
    (asked : (String.ofList (Text.trim prompt.toList)).isEmpty = false)
    (idle : w.session.inFlight = none) (assisted : w.worker = some .idle) :
    (w.command translator (.submitPrompt prompt)).1 =
      { w with
        desk := ⟨{ w.session with inFlight := some .generate, alert := none },
          w.desk.clampCursor.cursor⟩
        worker := some
          ⟨[.generate (String.ofList (Text.trim prompt.toList)) w.session.document], none, []⟩ } := by
  have begun : w.desk.clampCursor.session.beginGeneration prompt =
      .ok ({ w.session with inFlight := some .generate, alert := none },
        .generate (String.ofList (Text.trim prompt.toList)) w.session.document) := by
    have free : w.desk.clampCursor.session.isBusy = false := congrArg Option.isSome idle
    simp only [Session.beginGeneration, asked, free]
    rfl
  simp only [command, Desk.apply, begun, Desk.afterBegin, submit, assisted]
  rfl

theorem overwritten_edit {w : Workspace} (on : w.writeBack = true)
    (readable : w.files.read w.path = .ok w.session.document)
    (assisted : w.worker = some .idle) (idle : w.session.inFlight = none) {prompt : String}
    (asked : (String.ofList (Text.trim prompt.toList)).isEmpty = false) {edited made : String}
    {reply : Reply} (answered : documentOf reply = .ok made) (other : made ≠ w.session.document)
    (new : edited ≠ w.session.document) :
    let t := Trace.run translator w
      [.command (.submitPrompt prompt), .write edited, .begin, .reply reply]
    t.workspace.saves translator .receive = true ∧
      t.workspace.files.read t.workspace.path = .ok edited ∧ edited ∉ t.documents := by
  obtain ⟨files, written, reads⟩ := Folder.write_read readable edited
  have commanded := @command_submitPrompt translator w prompt asked idle assisted
  simp only [Trace.run, List.foldl_cons, List.foldl_nil, Trace.next, Trace.start, step, commanded,
    overwrite, written, Option.map_some, Worker.begin, Worker.reply, Request.answer, answered]
  refine ⟨?_, reads, ?_⟩
  · simp [saves, on, nextResponse?, Session.finish, session]
    exact decide_eq_true other
  · simp [session]
    exact new

theorem edit_lost_start {setting : Setting} {document : String} {settings : Settings.Editor}
    (on : settings.writeBack = true) (assisted : setting.assisted = true)
    (readable : setting.files.read setting.path = .ok document) {prompt : String}
    (asked : (String.ofList (Text.trim prompt.toList)).isEmpty = false) {edited made : String}
    {reply : Reply} (answered : documentOf reply = .ok made) (other : made ≠ document)
    (new : edited ≠ document) :
    let t := Trace.run translator (start translator setting document settings)
      [.command (.submitPrompt prompt), .write edited, .begin, .reply reply]
    t.workspace.saves translator .receive = true ∧
      t.workspace.files.read t.workspace.path = .ok edited ∧ edited ∉ t.documents := by
  have opened : (start translator setting document settings).session.document = document := by
    rw [start_session, start_document]
  apply overwritten_edit
  · exact on
  · rw [opened]
    exact readable
  · exact if_pos assisted
  · rw [start_session, Session.start, Session.refresh_eq]
  · exact asked
  · exact answered
  · rw [opened]
    exact other
  · rw [opened]
    exact new

/-- Whenever the document is written to the file, it takes the place of a text that was the
    document before, unless another program has written the file since it was last read or written
    here, and the watch has not been told or is about to report it. Nothing else that happens at
    the workspace changes the file. -/
theorem overwritten_known (translator : Translator) (setting : Setting) (document : String)
    (settings : Settings.Editor) (readable : setting.files.read setting.path = .ok document)
    (es : List Event) (e : Event) :
    let t := Trace.run translator (start translator setting document settings) es
    let w := t.workspace
    (w.saves translator e = true → ∃ old, w.files.read w.path = .ok old ∧ t.Known old ∧
        (w.step translator e).files.read w.path = .ok (w.step translator e).session.document) ∧
      (w.saves translator e = false →
        (∃ text, e = .write text) ∨ (w.step translator e).files = w.files) := by
  intro t w
  have first : (start translator setting document settings).files.read
      (start translator setting document settings).path =
        .ok (start translator setting document settings).session.document := by
    rw [start_session, start_document]
    exact readable
  have sound : t.Sound := Trace.Sound.run first es
  refine ⟨?_, files_unsaved⟩
  intro saves
  obtain ⟨old, holds, known⟩ := sound
  refine ⟨old, holds, known, ?_⟩
  obtain ⟨w', aside, on, saved⟩ := step_saves saves
  have holds' : w'.files.read w'.path = .ok old := by
    rw [aside.files, aside.path]
    exact holds
  obtain ⟨reads, session, _, _⟩ := save_reads on holds'
  rw [saved, session, ← aside.path]
  exact reads

def shaderSetting (document : String) : Setting :=
  ⟨{ path := "/home", files := [(["shader.hlsl".toList], .text document)], folders := [],
     workplace := [] }, "shader.hlsl", true, true⟩

theorem read_shaderSetting (document : String) :
    (shaderSetting document).files.read (shaderSetting document).path = .ok document := by
  refine Folder.read_ok.mpr ⟨["shader.hlsl".toList], ?_, rfl, ?_⟩
  · simp only [shaderSetting, Folder.place]
    rfl
  · exact congrArg (Option.map Prod.snd) (List.find?_cons_of_pos (decide_eq_true rfl))

def plainShader : String := "float4 mainImage(float2 uv) \x7b return float4(uv, 0.0, 1.0); \x7d\n"

def gainShader : String :=
  "uniform float gain;\nfloat4 mainImage(float2 uv) \x7b return float4(gain); \x7d"

theorem documentOf_gainShader : documentOf (.ok gainShader) = .ok gainShader :=
  documentOf_bare (by decide) (by decide) (by decide)

theorem overwritten_known_answer :
    let translator : Translator := fun glsl => .accepted (String.ofList glsl)
    let t := Trace.run translator
      (start translator (shaderSetting plainShader) plainShader ⟨100, 750, false, true⟩)
      [.command (.submitPrompt "gain"), .write "// by hand\n", .begin, .reply (.ok gainShader)]
    ∃ old, t.workspace.files.read t.workspace.path = .ok old ∧ t.Known old := by
  intro translator t
  have known := overwritten_known translator (shaderSetting plainShader) plainShader
    ⟨100, 750, false, true⟩ (read_shaderSetting plainShader)
    [.command (.submitPrompt "gain"), .write "// by hand\n", .begin, .reply (.ok gainShader)]
    .receive
  have saves : t.workspace.saves translator .receive = true :=
    (edit_lost_start rfl rfl (read_shaderSetting plainShader) (by decide) documentOf_gainShader
      (by decide) (by decide)).1
  obtain ⟨old, holds, known, _⟩ := known.1 saves
  exact ⟨old, holds, known⟩

theorem edit_by_hand_lost :
    let translator : Translator := fun glsl => .accepted (String.ofList glsl)
    let t := Trace.run translator
      (start translator (shaderSetting plainShader) plainShader ⟨100, 750, false, true⟩)
      [.command (.submitPrompt "gain"), .write "// by hand\n", .begin, .reply (.ok gainShader)]
    t.workspace.saves translator .receive = true ∧
      t.workspace.files.read t.workspace.path = .ok "// by hand\n" ∧
      "// by hand\n" ∉ t.documents := by
  intro translator
  exact edit_lost_start rfl rfl (read_shaderSetting plainShader) (by decide) documentOf_gainShader
    (by decide) (by decide)

end ShaderBench.Workspace
