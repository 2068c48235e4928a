import ShaderBench.Proofs.Editing.Explanation
import ShaderBench.Proofs.Gpu.SlotBytes
import ShaderBench.Proofs.View.Passage
/-
Edits that do not compile, while the program before them goes on. The parameters follow the
document all the same, so the program keeps the values of those that are still declared as before,
and finds zeros in the place of the others.
-/
namespace ShaderBench.Editing
open Param

def declared (seeding : Bool) (document name : String) : Option Kind :=
  kindNamed (extract seeding document.toList) name

/-- All of some documents declare a name as another document does. -/
def DeclaredAlike (seeding : Bool) (documents : List String) (document name : String) : Prop :=
  ∀ d ∈ documents, declared seeding d name = declared seeding document name

def follow (seeding : Bool) (ps : List Parameter) (document : String) : List Parameter :=
  reconcile ps (extract seeding document.toList)

end ShaderBench.Editing

namespace ShaderBench.View.Exchange
open Control Editing Preview Gpu Param
variable {translator : Translator} {seeding : Bool} {x : Exchange}

def documents (translator : Translator) (x : Exchange) : List Move → List String
  | [] => []
  | m :: ms =>
    (x.step translator m).session.document :: documents translator (x.step translator m) ms

theorem coherent_start (translator : Translator) (setting : Workspace.Setting) (document : String)
    (settings : Settings.Editor) (cols rows : Nat) (maxRate : Option Nat) (showRate : Bool)
    (now : Nat) :
    (start translator setting document settings cols rows maxRate showRate
      now).session.Coherent translator settings.seeding := by
  rw [start_session]
  exact start_coherent document settings

theorem run_coherent (coherent : x.session.Coherent translator seeding) (ms : List Move) :
    (x.run translator ms).session.Coherent translator seeding := by
  induction ms generalizing x with
  | nil => exact coherent
  | cons m ms ih => exact ih (coherent_step m coherent)

theorem run_params (coherent : x.session.Coherent translator seeding) {ms : List Move}
    (quiet : ∀ m ∈ ms, m.tunes = false) :
    (x.run translator ms).session.params =
      (x.documents translator ms).foldl (follow seeding) x.session.params := by
  induction ms generalizing x with
  | nil => rfl
  | cons m ms ih =>
    obtain ⟨first, rest⟩ := List.forall_mem_cons.mp quiet
    rw [documents, List.foldl_cons]
    have params := params_step first coherent
    rw [follow, ← Session.documentChars, ← params]
    exact ih (coherent_step m coherent) rest

theorem run_programs {ms : List Move}
    (broken : ∀ d ∈ x.documents translator ms, compiled? translator d = none) :
    ∀ p ∈ (x.run translator ms).programs, p ∈ x.programs := by
  induction ms generalizing x with
  | nil => exact fun _ listed => listed
  | cons m ms ih =>
    obtain ⟨first, rest⟩ := List.forall_mem_cons.mp broken
    intro p listed
    exact programs_step first p (ih rest p listed)

theorem run_settled (settled : x.Settled) {ms : List Move}
    (broken : ∀ d ∈ x.documents translator ms, compiled? translator d = none) :
    (x.run translator ms).painter.running = x.painter.running := by
  induction ms generalizing x with
  | nil => rfl
  | cons m ms ih =>
    obtain ⟨first, rest⟩ := List.forall_mem_cons.mp broken
    obtain ⟨settled', same⟩ := settled.step first
    exact (ih settled' rest).trans same

theorem encode_step {m : Move} (quiet : m.tunes = false)
    (coherent : x.session.Coherent translator seeding) {s : Slot}
    (alike : declared seeding (x.step translator m).session.document s.name =
      declared seeding x.session.document s.name) :
    s.encode (x.step translator m).session.params = s.encode x.session.params := by
  apply Slot.encode_congr
  rw [params_step quiet coherent]
  apply value_reconcile_kept
  rw [coherent.kindNamed]
  exact alike

/-- While a slot's name is declared as before, every copy of the parameters gives the slot bytes
    that it got from a copy before. -/
theorem run_encode (steady : x.Steady) (coherent : x.session.Coherent translator seeding)
    {ms : List Move} (quiet : ∀ m ∈ ms, m.tunes = false) {s : Slot}
    (alike : DeclaredAlike seeding (x.documents translator ms) x.session.document s.name) :
    s.encode (x.run translator ms).session.params = s.encode x.session.params ∧
      ∀ ps ∈ (x.run translator ms).copies, ∃ qs ∈ x.copies, s.encode ps = s.encode qs := by
  induction ms generalizing x with
  | nil => exact ⟨rfl, fun ps listed => ⟨ps, listed, rfl⟩⟩
  | cons m ms ih =>
    obtain ⟨first, rest⟩ := List.forall_mem_cons.mp quiet
    obtain ⟨here, later⟩ := List.forall_mem_cons.mp alike
    have steady' : (x.step translator m).Steady :=
      ⟨steady.sound.step m, steady.counted.step m, steady.tried.step m⟩
    have alike' : DeclaredAlike seeding ((x.step translator m).documents translator ms)
        (x.step translator m).session.document s.name := by
      intro d listed
      rw [later d listed, here]
    have step := encode_step first coherent here
    -- A copy that is made on the way is one of the session's parameters after a step, and these
    -- give the slot the same bytes as the ones at the start.
    obtain ⟨session, copies⟩ := ih steady' (coherent_step m coherent) rest alike'
    refine ⟨session.trans step, ?_⟩
    intro ps listed
    obtain ⟨qs, listed', same⟩ := copies ps listed
    rcases copies_step steady.counted m qs listed' with before | new
    · exact ⟨qs, before, same⟩
    · refine ⟨x.session.params, List.mem_cons_self, ?_⟩
      rw [same, new, step]

/-- What is left of a state by documents since that do not compile. -/
structure Undisturbed (seeding : Bool) (since : List String) (x z : Exchange) : Prop where
  programs : ∀ p ∈ z.programs, p ∈ x.programs
  params : z.session.params = since.foldl (follow seeding) x.session.params
  kept : ∀ s : Slot, DeclaredAlike seeding since x.session.document s.name →
    s.encode z.session.params = s.encode x.session.params
  lost : ∀ s : Slot, declared seeding z.session.document s.name = none →
    s.encode z.session.params = List.replicate s.type.size 0
  bytes : ∀ q ∈ z.painter.pipeline, ∀ s ∈ q.program.layout.slots,
    DeclaredAlike seeding since x.session.document s.name →
      ∃ ps ∈ x.copies, s.cut q.buffer = s.encode ps
  running : x.Delivered → z.painter.running = x.painter.running
  slots : x.Delivered → ∀ q ∈ x.painter.pipeline, ∀ q' ∈ z.painter.pipeline,
    ∀ s ∈ q.program.layout.slots, DeclaredAlike seeding since x.session.document s.name →
      s.cut q'.buffer = s.cut q.buffer
  whole : x.Delivered → (∀ q ∈ x.painter.pipeline, ∀ s ∈ q.program.layout.slots,
      DeclaredAlike seeding since x.session.document s.name) →
    z.painter.pipeline = x.painter.pipeline
  uploaded : z.Delivered → ∀ q ∈ z.painter.pipeline,
    q.buffer = q.program.layout.pack z.session.params

theorem Sound.cut (sound : x.Sound) {q : Pipeline} (runs : q ∈ x.painter.pipeline) {s : Slot}
    (listed : s ∈ q.program.layout.slots) : s.cut q.buffer = s.encode x.painter.params := by
  obtain ⟨ordered, packed⟩ := sound.fed q runs
  rw [packed, ordered.cut_pack listed]

theorem Sound.buffer (sound : x.Sound) {p : Program} (runs : x.painter.running = some p) :
    x.painter.pipeline.map Pipeline.buffer = some (p.layout.pack x.painter.params) := by
  obtain ⟨q, here, program⟩ := Option.map_eq_some_iff.mp runs
  rw [here, ← program, Option.map_some, (sound.fed q here).2]

theorem program_eq {z : Exchange} (same : z.painter.running = x.painter.running) {q q' : Pipeline}
    (runs : q ∈ x.painter.pipeline) (runs' : q' ∈ z.painter.pipeline) : q'.program = q.program := by
  rw [Painter.running, Painter.running, Option.mem_def.mp runs, Option.mem_def.mp runs'] at same
  exact Option.some.inj same

theorem Sound.pipeline {z : Exchange} (sound : x.Sound) (sound' : z.Sound)
    (same : z.painter.running = x.painter.running)
    (alike : ∀ q ∈ x.painter.pipeline, ∀ s ∈ q.program.layout.slots,
      s.encode z.painter.params = s.encode x.painter.params) :
    z.painter.pipeline = x.painter.pipeline := by
  cases runs : x.painter.pipeline with
  | none =>
    rw [Painter.running, Painter.running, runs] at same
    exact Option.map_eq_none_iff.mp same
  | some q =>
    rw [Painter.running, Painter.running, runs] at same
    obtain ⟨q', runs', program⟩ := Option.map_eq_some_iff.mp same
    have buffer : q'.buffer = q.buffer := by
      rw [(sound'.fed q' runs').2, (sound.fed q runs).2, program]
      exact Layout.pack_congr (alike q runs)
    rw [runs']
    cases q
    cases q'
    simp_all

theorem undisturbed_run (steady : x.Steady) (coherent : x.session.Coherent translator seeding)
    {ms : List Move} (quiet : ∀ m ∈ ms, m.tunes = false)
    (broken : ∀ d ∈ x.documents translator ms, compiled? translator d = none) :
    Undisturbed seeding (x.documents translator ms) x (x.run translator ms) := by
  have steady' : (x.run translator ms).Steady := steady.run ms
  have coherent' : (x.run translator ms).session.Coherent translator seeding :=
    run_coherent coherent ms
  -- A slot that is declared alike has, at the end, the bytes that some copy gave it before.
  have held : ∀ s : Slot, DeclaredAlike seeding (x.documents translator ms) x.session.document s.name →
      ∃ ps ∈ x.copies, s.encode (x.run translator ms).painter.params = s.encode ps :=
    fun s alike => (run_encode steady coherent quiet alike).2 _ (by simp [copies])
  have same : x.Delivered → (x.run translator ms).painter.running = x.painter.running :=
    fun delivered => run_settled delivered.settled broken
  have before : x.Delivered → ∀ s : Slot,
      DeclaredAlike seeding (x.documents translator ms) x.session.document s.name →
        s.encode (x.run translator ms).painter.params = s.encode x.painter.params := by
    intro delivered s alike
    obtain ⟨ps, listed, bytes⟩ := held s alike
    rw [bytes, delivered.copies steady.counted ps listed, delivered.params steady.counted]
  constructor
  · exact run_programs broken
  · exact run_params coherent quiet
  · exact fun s alike => (run_encode steady coherent quiet alike).1
  · intro s absent
    apply Slot.encode_absent
    rw [declared, ← Session.documentChars, ← coherent'.kindNamed] at absent
    exact Option.map_eq_none_iff.mp absent
  · intro q runs s listed alike
    obtain ⟨ps, known, bytes⟩ := held s alike
    exact ⟨ps, known, (steady'.sound.cut runs listed).trans bytes⟩
  · exact same
  · intro delivered q runs q' runs' s listed alike
    have listed' : s ∈ q'.program.layout.slots := by
      rw [program_eq (same delivered) runs runs']
      exact listed
    rw [steady'.sound.cut runs' listed', steady.sound.cut runs listed, before delivered s alike]
  · intro delivered alike
    apply steady.sound.pipeline steady'.sound (same delivered)
    intro q runs s listed
    exact before delivered s (alike q runs s listed)
  · intro delivered q runs
    rw [(steady'.sound.fed q runs).2, delivered.params steady'.counted]

/-- Broken edits leave the running program and the bytes of every slot whose name is declared as
    before: in every state that can be reached, whatever moves follow, as long as none of them is
    about the values of parameters and no document since compiles. -/
theorem broken_edits_spare (translator : Translator) (setting : Workspace.Setting)
    (document : String) (settings : Settings.Editor) (cols rows : Nat) (maxRate : Option Nat)
    (showRate : Bool) (now : Nat) (front ms : List Move) :
    let x := (start translator setting document settings cols rows maxRate showRate now).run
      translator front
    let since := x.documents translator ms
    (∀ m ∈ ms, m.tunes = false) → (∀ d ∈ since, compiled? translator d = none) →
      Undisturbed settings.seeding since x (x.run translator ms) := by
  intro x since quiet broken
  have steady : x.Steady := Steady.run (steady_start ..) front
  have coherent : x.session.Coherent translator settings.seeding :=
    run_coherent (coherent_start ..) front
  exact undisturbed_run steady coherent quiet broken

/- A program with one parameter, and two broken edits of it. -/

def gainDocument : String :=
  "uniform float gain;\nfloat4 mainImage(float2 uv) \x7b return float4(gain); \x7d"

def mistyped : String :=
  "uniform float gain;\nfloat4 mainImage(float2 uv) \x7b return float4(gian); \x7d\n"

def undeclared : String := "float4 mainImage(float2 uv) \x7b return float4(missingThing); \x7d\n"

theorem compiled_gain {document : String} {rest : List Char} {c : Char}
    (text : Shader.body document.toList = "uniform float gain;".toList ++ rest)
    (declares : Shader.declarations (Shader.body document.toList) =
      [⟨0, 19, "float", "gain", none⟩])
    (last : rest.getLast? = some c) :
    compiled? endReader document =
      if c = '\x7d' then some ⟨"", ⟨[⟨"gain", .float, 0⟩]⟩⟩ else none := by
  obtain ⟨far, place⟩ : ∃ far, Text.byteLength Shader.header = far := ⟨_, rfl⟩
  have members : membersOf document.toList =
      [⟨Shader.Declaration.moved far ⟨0, 19, "float", "gain", none⟩, .float⟩] := by
    rw [membersOf, declares, place]
    rfl
  have apart : Text.Apart (Text.byteLength Shader.header) "uniform float gain;".toList
      ((membersOf document.toList).map fun m => m.declaration.span) := by
    have bytes : Text.byteLength "uniform float gain;".toList = 19 := by decide
    rw [members, place]
    refine ⟨[], "uniform float gain;".toList, [], by decide, rfl, ?_, trivial⟩
    rw [bytes]
    rfl
  obtain ⟨front, first, lowered⟩ := lower_ends text apart
  have ends : (front ++ rest).getLast? = some c := by
    rw [List.getLast?_append, last, Option.some_or]
  have layout : layoutOf (membersOf document.toList) = ⟨[⟨"gain", .float, 0⟩]⟩ := by
    rw [members]
    simp [layoutOf, lastOfName, Layout.push, Layout.contains, Layout.empty, Layout.stop, roundUp,
      MemberType.alignment, Shader.Declaration.moved]
  rw [compiled?, compile, lowered]
  simp only [Lowered.translate, endReader, ends, Option.some.injEq, layout]
  by_cases closed : c = '\x7d'
  · simp [closed, Except.toOption]
  · simp [closed, Except.toOption]

theorem documents_edit (x : Exchange) (document : String) (now : Nat) (device : Device) :
    x.documents translator [.operate (.edit document now), .push, .take, .work device] =
      List.replicate 4 document := by
  have first : (x.step translator (.operate (.edit document now))).session.document = document :=
    x.session.edit_document document now
  have left : (x.step translator (.operate (.edit document now))).push.session.document =
      document := first
  simp only [documents, first]
  simp only [step, work_session, take_session] at left ⊢
  rw [left]
  rfl

theorem compiled_gainDocument :
    compiled? endReader gainDocument = some ⟨"", ⟨[⟨"gain", .float, 0⟩]⟩⟩ :=
  @compiled_gain gainDocument "\nfloat4 mainImage(float2 uv) \x7b return float4(gain); \x7d".toList
    '\x7d' (by decide +kernel) (by decide +kernel) (by decide)

theorem compiled_mistyped : compiled? endReader mistyped = none :=
  @compiled_gain mistyped
    "\nfloat4 mainImage(float2 uv) \x7b return float4(gian); \x7d\n".toList '\n'
    (by decide +kernel) (by decide +kernel) (by decide)

theorem compiled_undeclared : compiled? endReader undeclared = none := by
  have failing : ¬ complaint? endReader undeclared = none := by
    rw [@complaint_endReader undeclared '\n' (by decide +kernel) (by decide +kernel)]
    decide
  exact Option.not_isSome_iff_eq_none.mp (mt Session.complaint_eq_none.mpr failing)

def able : Device := .blank fun _ => none

def opened : Exchange :=
  start endReader ⟨.empty "/home", "a.hlsl", false, false⟩ gainDocument ⟨100, 750, false, true⟩ 80 24
    none false 0

def delivery : List Move := [.push, .take, .work able]

def shown : Exchange := opened.run endReader delivery

def editTo (document : String) : List Move := .operate (.edit document 0) :: delivery

theorem editTo_quiet (document : String) : ∀ m ∈ editTo document, m.tunes = false := by
  simp [editTo, delivery, Move.tunes, Operation.tunes]

theorem documents_editTo (document : String) :
    ∀ d ∈ shown.documents endReader (editTo document), d = document := by
  intro d listed
  rw [editTo, delivery, documents_edit] at listed
  exact List.eq_of_mem_replicate listed

theorem editTo_broken {document : String} (broken : compiled? endReader document = none) :
    ∀ d ∈ shown.documents endReader (editTo document), compiled? endReader d = none := by
  intro d listed
  rw [documents_editTo document d listed]
  exact broken

theorem run_delivery (x : Exchange) :
    x.run translator delivery = x.push.turn translator [] able := rfl

theorem shown_turn : shown = opened.push.turn endReader [] able := run_delivery opened

theorem opened_session : opened.session = .start endReader gainDocument ⟨100, 750, false, true⟩ :=
  start_session ..

theorem shown_delivered : shown.Delivered := by
  rw [shown_turn]
  exact delivered_turn (counted_start ..) rfl able

theorem shown_session :
    shown.session.document = gainDocument ∧ shown.session.params = extract false gainDocument.toList := by
  rw [shown_turn, turn_session, opened.push_session.1, opened.push_session.2, opened_session]
  exact ⟨start_document .., start_params ..⟩

theorem shown_steady : shown.Steady := (steady_start ..).run delivery

theorem shown_coherent : shown.session.Coherent endReader false :=
  run_coherent (coherent_start endReader ⟨.empty "/home", "a.hlsl", false, false⟩ gainDocument
    ⟨100, 750, false, true⟩ 80 24 none false 0) delivery

theorem shown_running : shown.painter.running = some ⟨"", ⟨[⟨"gain", .float, 0⟩]⟩⟩ := by
  rw [shown_turn]
  apply turn_runs rfl
  · rw [opened_session, start_pending, compiled_gainDocument]
  · rfl

theorem mistyped_gain_kept :
    (∀ m ∈ editTo mistyped, m.tunes = false) ∧
      (∀ d ∈ shown.documents endReader (editTo mistyped), compiled? endReader d = none) ∧
      (shown.run endReader (editTo mistyped)).painter.pipeline = shown.painter.pipeline := by
  have broken := editTo_broken compiled_mistyped
  refine ⟨editTo_quiet mistyped, broken, ?_⟩
  have spared : Undisturbed false (shown.documents endReader (editTo mistyped)) shown
      (shown.run endReader (editTo mistyped)) :=
    broken_edits_spare endReader ⟨.empty "/home", "a.hlsl", false, false⟩ gainDocument
      ⟨100, 750, false, true⟩ 80 24 none false 0 delivery (editTo mistyped)
      (editTo_quiet mistyped) broken
  apply spared.whole shown_delivered
  intro q _ s _ d listed
  have same : extract false mistyped.toList = extract false gainDocument.toList := by
    decide +kernel
  rw [documents_editTo mistyped d listed, shown_session.1, declared, declared, same]

/-- Where the declaration goes the slot gets zeros. -/
theorem undeclared_gain_lost :
    (∀ m ∈ editTo undeclared, m.tunes = false) ∧
      (∀ d ∈ shown.documents endReader (editTo undeclared), compiled? endReader d = none) ∧
      shown.painter.pipeline.map Pipeline.buffer =
        some [0, 0, 0, 63, 0, 0, 0, 0, 0, 0, 0, 0, 0, 0, 0, 0] ∧
      (shown.run endReader (editTo undeclared)).painter.pipeline.map Pipeline.buffer =
        some [0, 0, 0, 0, 0, 0, 0, 0, 0, 0, 0, 0, 0, 0, 0, 0] := by
  have broken := editTo_broken compiled_undeclared
  have left := @undisturbed_run endReader false shown shown_steady shown_coherent
    (editTo undeclared) (editTo_quiet undeclared) broken
  have steady : (shown.run endReader (editTo undeclared)).Steady :=
    shown_steady.run (editTo undeclared)
  have arrived : (shown.run endReader (editTo undeclared)).Delivered := by
    rw [editTo, run, List.foldl_cons, ← run, run_delivery]
    have idle := (@step_quiet endReader shown (.operate (.edit undeclared 0)) rfl).1
    exact delivered_turn (shown_steady.counted.operate _) (idle.trans shown_delivered.idle) able
  have none : (shown.run endReader (editTo undeclared)).session.params = [] := by
    have nothing : extract false undeclared.toList = [] := by decide +kernel
    rw [left.params, editTo, delivery, documents_edit]
    simp [List.replicate, follow, nothing, reconcile]
  refine ⟨editTo_quiet undeclared, broken, ?_, ?_⟩
  · rw [shown_steady.sound.buffer shown_running, shown_delivered.params shown_steady.counted,
      shown_session.2]
    decide +kernel
  · rw [steady.sound.buffer ((left.running shown_delivered).trans shown_running),
      arrived.params steady.counted, none]
    decide +kernel

end ShaderBench.View.Exchange
