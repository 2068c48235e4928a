import ShaderBench.Files.Folder
/-
A file that can be read can be written, and holds then what was written.
-/
namespace ShaderBench.Files.Folder

@[simp] theorem isFolder_put (f : Folder) (place here : Place) (content : Content) :
    (f.put place content).isFolder here = f.isFolder here := rfl

theorem content?_put (f : Folder) (place : Place) (content : Content) :
    (f.put place content).content? place = some content := by
  have others : ∀ entry ∈ f.files.filter fun entry => entry.1 ≠ place,
      ¬ (decide (entry.1 = place)) = true := by
    intro entry listed
    simpa using (List.mem_filter.mp listed).2
  rw [content?, put, List.find?_append, List.find?_eq_none.mpr others, Option.none_or]
  simp

theorem follow_put (f : Folder) (place : Place) (content : Content) :
    ∀ (here : Place) (parts : List (List Char)) {stop : Place},
      f.follow here parts = .ok stop → (f.put place content).follow here parts = .ok stop := by
  intro here parts
  fun_induction f.follow here parts with
  | case1 here =>
    intro stop leads
    exact leads
  | case2 here part rest outside =>
    intro stop leads
    cases leads
  | case3 here part rest inside silent ih =>
    intro stop leads
    rw [follow, isFolder_put, if_neg inside, if_pos silent]
    exact ih leads
  | case4 here part rest inside silent down ih =>
    intro stop leads
    rw [follow, isFolder_put, if_neg inside, if_neg silent, if_pos down]
    exact ih leads
  | case5 here part rest inside silent down top =>
    intro stop leads
    cases leads
  | case6 here part rest inside silent down top ih =>
    intro stop leads
    rw [follow, isFolder_put, if_neg inside, if_neg silent, if_neg down, if_neg top]
    exact ih leads

theorem place_put {f : Folder} {p : Path} {stop : Place} (place : Place) (content : Content)
    (leads : f.place p = .ok stop) : (f.put place content).place p = .ok stop := by
  unfold Folder.place at leads ⊢
  split at leads
  · cases leads
  · rename_i rest text
    have same : (f.put place content).inner? ('/' :: rest) = f.inner? ('/' :: rest) := rfl
    rw [same]
    split at leads
    · exact follow_put f place content _ _ leads
    · cases leads
  · exact follow_put f place content _ _ leads

theorem read_ok {f : Folder} {p : Path} {text : String} :
    f.read p = .ok text ↔ ∃ place, f.place p = .ok place ∧ f.isFolder place = false ∧
      f.content? place = some (.text text) := by
  constructor
  · intro readable
    unfold read at readable
    cases leads : f.place p with
    | error e =>
      rw [leads] at readable
      cases readable
    | ok place =>
      rw [leads] at readable
      refine ⟨place, rfl, ?_⟩
      change (if f.isFolder place = true then _ else _) = _ at readable
      split at readable
      · cases readable
      · rename_i file
        refine ⟨Bool.not_eq_true _ ▸ file, ?_⟩
        split at readable
        · rename_i content
          cases readable
          exact content
        · cases readable
        · cases readable
  · rintro ⟨place, leads, file, content⟩
    unfold read
    rw [leads]
    change (if f.isFolder place = true then _ else _) = _
    rw [if_neg (Bool.eq_false_iff.mp file), content]

theorem write_read {f : Folder} {p : Path} {old : String} (readable : f.read p = .ok old)
    (text : String) : ∃ f', f.write p text = .ok f' ∧ f'.read p = .ok text := by
  obtain ⟨place, leads, file, _⟩ := read_ok.mp readable
  refine ⟨f.put place (.text text), ?_, read_ok.mpr ⟨place, place_put place _ leads, file, ?_⟩⟩
  · have target : f.target p = .ok place := by
      rw [target, leads]
      dsimp only
      rw [if_neg (Bool.eq_false_iff.mp file)]
    rw [write, target]
    rfl
  · exact content?_put f place (.text text)

end ShaderBench.Files.Folder
