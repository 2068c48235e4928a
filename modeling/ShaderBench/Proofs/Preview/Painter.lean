import ShaderBench.Preview.Painter
import ShaderBench.Proofs.Gpu.Packing
/-
The side with the device: whatever it takes over, its buffer holds its parameters in the layout of
the program that runs.
-/
namespace ShaderBench.Preview.Painter
open Gpu Param

def running (p : Painter) : Option Program := p.pipeline.map Pipeline.program

/-- The buffer is neither too short nor too long for what is in it. -/
def Fed (p : Painter) : Prop :=
  ∀ q ∈ p.pipeline, q.program.layout.Ordered ∧ q.buffer = q.program.layout.pack p.params

/-- The program that parameters are laid out for is the one that runs. -/
def Informed (p : Painter) : Prop := p.current = p.running

theorem fed_start (target : Size) : (start target).Fed := by
  intro q runs
  cases runs

theorem informed_start (target : Size) : (start target).Informed := rfl

theorem Fed.resize {p : Painter} (fed : p.Fed) (size : Size) : (p.resize size).Fed := fed

theorem Informed.resize {p : Painter} (informed : p.Informed) (size : Size) :
    (p.resize size).Informed := informed

theorem upload_running (p : Painter) (layout : Layout) : (p.upload layout).running = p.running := by
  rw [running, upload, Option.map_map]
  rfl

@[simp] theorem setParams_params (p : Painter) (params : List Parameter) :
    (p.setParams params).params = params := by
  unfold setParams
  dsimp only
  split <;> rfl

theorem setParams_pipeline (p : Painter) (params : List Parameter) :
    (p.setParams params).pipeline =
      p.pipeline.map fun q => q.write (q.program.layout.pack params) := by
  cases runs : p.pipeline with
  | none => simp [setParams, runs]
  | some q => simp [setParams, upload, runs]

theorem Fed.setParams {p : Painter} (fed : p.Fed) (params : List Parameter) :
    (p.setParams params).Fed := by
  intro q runs
  rw [setParams_pipeline] at runs
  obtain ⟨before, ran, written⟩ := Option.map_eq_some_iff.mp runs
  obtain ⟨ordered, packed⟩ := fed before ran
  rw [setParams_params, ← written]
  refine ⟨ordered, ?_⟩
  apply before.write_whole
  rw [packed, ordered.length_pack, ordered.length_pack]

/-- Parameters are laid out for the program that runs, and nothing else changes. -/
theorem Informed.takeParams_some {p : Painter} (informed : p.Informed) (revision : Nat)
    (params : List Parameter) :
    p.takeParams (some (revision, params)) = { p with seen := revision }.setParams params := by
  have current : p.current = p.pipeline.map Pipeline.program := informed
  cases runs : p.pipeline with
  | none =>
    rw [runs, Option.map_none] at current
    simp only [Painter.takeParams, setParams, current, runs]
  | some q =>
    rw [runs, Option.map_some] at current
    simp only [Painter.takeParams, setParams, current, runs]

theorem takeParams_taken (p : Painter) (taken : Option (Nat × List Parameter)) :
    ((p.takeParams taken).seen, (p.takeParams taken).params) = taken.getD (p.seen, p.params) := by
  cases taken with
  | none => rfl
  | some newer =>
    dsimp only [takeParams]
    split <;> rfl

theorem takeParams_programs (p : Painter) (taken : Option (Nat × List Parameter)) :
    (p.takeParams taken).current = p.current ∧ (p.takeParams taken).running = p.running := by
  cases taken with
  | none => exact ⟨rfl, rfl⟩
  | some newer =>
    dsimp only [takeParams]
    split
    · exact ⟨rfl, upload_running _ _⟩
    · exact ⟨rfl, rfl⟩

theorem Informed.takeParams {p : Painter} (informed : p.Informed)
    (taken : Option (Nat × List Parameter)) : (p.takeParams taken).Informed := by
  obtain ⟨current, running⟩ := p.takeParams_programs taken
  rw [Informed, current, running]
  exact informed

theorem Fed.takeParams {p : Painter} (fed : p.Fed) (informed : p.Informed)
    (taken : Option (Nat × List Parameter)) : (p.takeParams taken).Fed := by
  cases taken with
  | none => exact fed
  | some newer =>
    have seen : Fed { p with seen := newer.1 } := fed
    rw [informed.takeParams_some]
    exact seen.setParams newer.2

theorem load_ok {device : Device} {p p' : Painter} {program : Program}
    (loaded : p.load device program = .ok p') :
    p'.seen = p.seen ∧ p'.params = p.params ∧ p'.running = some program ∧
      (program.layout.Ordered → p'.Fed) := by
  obtain ⟨pipeline, created, same⟩ := map_ok loaded
  have fresh : pipeline = ⟨program, List.replicate program.layout.size 0⟩ := by
    unfold Pipeline.create at created
    split at created
    · cases created
    · exact (Except.ok.inj created).symm
  subst same fresh
  refine ⟨rfl, rfl, rfl, ?_⟩
  intro ordered q runs
  cases runs
  refine ⟨ordered, ?_⟩
  apply Pipeline.write_whole
  rw [ordered.length_pack, List.length_replicate]

theorem takeProgram_some (device : Device) (p : Painter) (program : Program) :
    (∃ p', p.load device program = .ok p' ∧ p.takeProgram device (some program) =
        ({ p' with current := some program }, some .running)) ∨
      ∃ message, p.takeProgram device (some program) = (p, some (.failed message)) := by
  cases loaded : p.load device program with
  | ok p' => exact .inl ⟨p', rfl, by simp [takeProgram, loaded]⟩
  | error message => exact .inr ⟨message, by simp [takeProgram, loaded]⟩

theorem takeProgram_params (device : Device) (p : Painter) (taken : Option Program) :
    (p.takeProgram device taken).1.seen = p.seen ∧
      (p.takeProgram device taken).1.params = p.params := by
  cases taken with
  | none => exact ⟨rfl, rfl⟩
  | some program =>
    rcases takeProgram_some device p program with ⟨p', loaded, taken⟩ | ⟨message, taken⟩
    · rw [taken]
      exact ⟨(load_ok loaded).1, (load_ok loaded).2.1⟩
    · rw [taken]
      exact ⟨rfl, rfl⟩

theorem Fed.takeProgram {device : Device} {p : Painter} {taken : Option Program} (fed : p.Fed)
    (ordered : ∀ program ∈ taken, program.layout.Ordered) :
    (p.takeProgram device taken).1.Fed := by
  cases taken with
  | none => exact fed
  | some program =>
    rcases takeProgram_some device p program with ⟨p', loaded, taken⟩ | ⟨message, taken⟩
    · rw [taken]
      exact (load_ok loaded).2.2.2 (ordered program rfl)
    · rw [taken]
      exact fed

theorem takeProgram_running (device : Device) (p : Painter) (taken : Option Program) :
    (p.takeProgram device taken).1.running =
      if (p.takeProgram device taken).2 = some .running then taken else p.running := by
  cases taken with
  | none => rfl
  | some program =>
    rcases takeProgram_some device p program with ⟨p', loaded, taken⟩ | ⟨message, taken⟩
    · rw [taken]
      exact (load_ok loaded).2.2.1
    · rw [taken]
      rfl

theorem Informed.takeProgram {p : Painter} (informed : p.Informed) (device : Device)
    (taken : Option Program) : (p.takeProgram device taken).1.Informed := by
  cases taken with
  | none => exact informed
  | some program =>
    rcases takeProgram_some device p program with ⟨p', loaded, taken⟩ | ⟨message, taken⟩
    · rw [taken]
      exact (load_ok loaded).2.2.1.symm
    · rw [taken]
      exact informed

theorem takeProgram_able {device : Device} {program : Program} (able : device.fault? program = none)
    (p : Painter) : (p.takeProgram device (some program)).1.running = some program := by
  have loaded : p.load device program =
      .ok ({ p with pipeline := some ⟨program, List.replicate program.layout.size 0⟩ }.upload
        program.layout) := by
    rw [load, Pipeline.create, able]
    rfl
  rw [takeProgram, loaded]
  exact (load_ok loaded).2.2.1

end ShaderBench.Preview.Painter
