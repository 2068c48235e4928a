import ShaderBench.Files.Folder
/-
Bursts of changes as they are reported. A run of the watch is kept in a log beside it: what came
since the last check, and what each check saw and answered. The answers follow from the log alone.
-/
namespace ShaderBench.Files

inductive Incident where
  | notice (n : Notice)
  | check (now : Nat)
  deriving DecidableEq, Repr

/-- A check: the notices that came since the one before, its time, and its answer. -/
structure Look where
  notices : List Notice
  time : Nat
  reported : Bool
  deriving DecidableEq, Repr

structure Log where
  watcher : Watcher
  unseen : List Notice
  looks : List Look
  deriving DecidableEq, Repr

def news (p : Path) (ns : List Notice) : Bool := ns.any (Watcher.ofPath p).concerns

/-- A burst that no check has reported yet. The last check that saw news was at the time. -/
def Pends (p : Path) (looks : List Look) (time : Nat) : Prop :=
  ∃ past last quiet, looks = past ++ last :: quiet ∧ last.time = time ∧ news p last.notices = true ∧
    (∀ l ∈ quiet, news p l.notices = false) ∧ ∀ l ∈ last :: quiet, l.reported = false

def Incident.matters (p : Path) : Incident → Bool
  | .notice n => (Watcher.ofPath p).concerns n
  | .check _ => true

namespace Log

def start (p : Path) : Log := ⟨.ofPath p, [], []⟩

def next (g : Log) : Incident → Log
  | .notice n => ⟨g.watcher.notify n, g.unseen ++ [n], g.looks⟩
  | .check now =>
    ⟨(g.watcher.check now).1, [], g.looks ++ [⟨g.unseen, now, (g.watcher.check now).2⟩]⟩

def run (p : Path) (is : List Incident) : Log := is.foldl next (start p)

def answers (g : Log) : List (Nat × Bool) := g.looks.map fun l => (l.time, l.reported)

end Log

/-- The last check either saw the news itself or was quiet after the one that did. -/
theorem pends_concat {p : Path} {looks : List Look} {l : Look} (time : Nat) :
    Pends p (looks ++ [l]) time ↔
      l.reported = false ∧ if news p l.notices then l.time = time else Pends p looks time := by
  constructor
  · rintro ⟨past, last, quiet, split, same, saw, still, unreported⟩
    rcases List.eq_nil_or_concat quiet with none | ⟨quiet', l', some⟩
    · subst none
      obtain ⟨_, here⟩ := List.append_inj' split rfl
      cases here
      refine ⟨unreported l List.mem_cons_self, ?_⟩
      rw [if_pos saw]
      exact same
    · rw [List.concat_eq_append] at some
      subst some
      have split' : looks ++ [l] = (past ++ last :: quiet') ++ [l'] := by simpa using split
      obtain ⟨before, here⟩ := List.append_inj' split' rfl
      cases here
      obtain ⟨still', quietLast⟩ := List.forall_mem_append.mp still
      obtain ⟨unreported', last'⟩ := List.forall_mem_append.mp
        (show ∀ l' ∈ (last :: quiet') ++ [l], l'.reported = false from unreported)
      refine ⟨last' l List.mem_cons_self, ?_⟩
      rw [if_neg (Bool.eq_false_iff.mp (quietLast l List.mem_cons_self))]
      exact ⟨past, last, quiet', before, same, saw, still', unreported'⟩
  · rintro ⟨unreported, pends⟩
    split at pends
    · rename_i saw
      refine ⟨looks, l, [], rfl, pends, saw, by simp, ?_⟩
      simpa using unreported
    · rename_i quietLast
      obtain ⟨past, last, quiet, before, same, saw, still, unreported'⟩ := pends
      refine ⟨past, last, quiet ++ [l], by simp [before], same, saw, ?_, ?_⟩
      · exact List.forall_mem_append.mpr ⟨still, by simpa using quietLast⟩
      · rw [← List.cons_append]
        exact List.forall_mem_append.mpr ⟨unreported', by simpa using unreported⟩

namespace Burst

theorem check_iff (b : Burst) (now : Nat) :
    (b.check now).2 = true ↔ ∃ time, b.last = some time ∧ time + settlingTime ≤ now := by
  unfold check
  cases b.last with
  | none => simp
  | some time =>
    have due : settlingTime ≤ now - time ↔ time + settlingTime ≤ now := by
      unfold settlingTime
      omega
    simp only [Option.some.injEq, exists_eq_left', ← due]
    split <;> simp_all

/-- A burst is over when it is reported, and stays as it is until then. -/
theorem check_last (b : Burst) (now time : Nat) :
    (b.check now).1.last = some time ↔ (b.check now).2 = false ∧ b.last = some time := by
  unfold check
  split
  · split
    · simp [Burst.none]
    · simp
  · simp

theorem check_change (now : Nat) : ((change now).check now).2 = false := by
  rw [Bool.eq_false_iff, ne_eq, check_iff]
  rintro ⟨time, same, due⟩
  cases same
  unfold settlingTime at due
  omega

end Burst

structure Log.Sound (p : Path) (g : Log) : Prop where
  named : g.watcher.name = p.fileName?
  notices : g.watcher.notices = g.unseen
  last : ∀ time, g.watcher.burst.last = some time ↔ Pends p g.looks time

structure Log.Alike (p : Path) (g g' : Log) : Prop where
  burst : g'.watcher.burst = g.watcher.burst
  unseen : news p g'.unseen = news p g.unseen
  answers : g'.answers = g.answers

namespace Log
variable {p : Path} {g g' : Log}

theorem Sound.check_eq (sound : g.Sound p) (now : Nat) :
    let checked := (if news p g.unseen then .change now else g.watcher.burst).check now
    (g.watcher.check now).1.burst = checked.1 ∧ (g.watcher.check now).2 = checked.2 := by
  have same : g.watcher.concerns = (Watcher.ofPath p).concerns := by
    funext n
    unfold Watcher.concerns
    rw [sound.named]
    rfl
  rw [Watcher.check, same, sound.notices]
  exact ⟨rfl, rfl⟩

theorem Sound.check_iff (sound : g.Sound p) (now : Nat) :
    (g.watcher.check now).2 = true ↔
      news p g.unseen = false ∧ ∃ time, Pends p g.looks time ∧ time + settlingTime ≤ now := by
  rw [(sound.check_eq now).2]
  cases saw : news p g.unseen with
  | true => simp [Burst.check_change]
  | false => simp [Burst.check_iff, sound.last]

theorem Sound.next (sound : g.Sound p) (i : Incident) : (g.next i).Sound p := by
  cases i with
  | notice n =>
    refine ⟨sound.named, ?_, sound.last⟩
    rw [Log.next, Watcher.notify, sound.notices]
  | check now =>
    refine ⟨sound.named, rfl, ?_⟩
    intro time
    rw [Log.next, pends_concat, ← sound.last, (sound.check_eq now).1, (sound.check_eq now).2,
      Burst.check_last]
    cases saw : news p g.unseen with
    | true => simp [Burst.change]
    | false => simp

theorem sound_start (p : Path) : (start p).Sound p := by
  refine ⟨rfl, rfl, ?_⟩
  intro time
  simp [start, Watcher.ofPath, Burst.none, Pends]

theorem sound_run (p : Path) (is : List Incident) : (run p is).Sound p := by
  suffices every : ∀ g : Log, g.Sound p → (is.foldl Log.next g).Sound p from
    every _ (sound_start p)
  induction is with
  | nil => exact fun g sound => sound
  | cons i is ih => exact fun g sound => ih _ (sound.next i)

theorem news_concat (p : Path) (ns : List Notice) (n : Notice) :
    news p (ns ++ [n]) = (news p ns || (Watcher.ofPath p).concerns n) := by
  simp [news]

theorem Alike.idle (alike : Alike p g g') {i : Incident} (idle : i.matters p = false) :
    Alike p (g.next i) g' := by
  cases i with
  | notice n =>
    refine ⟨alike.burst, ?_, alike.answers⟩
    have aside : (Watcher.ofPath p).concerns n = false := idle
    rw [Log.next, news_concat, aside, Bool.or_false]
    exact alike.unseen
  | check now => cases idle

theorem Alike.next (alike : Alike p g g') (sound : g.Sound p) (sound' : g'.Sound p)
    (i : Incident) : Alike p (g.next i) (g'.next i) := by
  cases i with
  | notice n =>
    refine ⟨alike.burst, ?_, alike.answers⟩
    rw [Log.next, Log.next, news_concat, news_concat, alike.unseen]
  | check now =>
    obtain ⟨burst, answer⟩ := sound.check_eq now
    obtain ⟨burst', answer'⟩ := sound'.check_eq now
    rw [alike.unseen, alike.burst] at burst' answer'
    refine ⟨burst'.trans burst.symm, rfl, ?_⟩
    have earlier := alike.answers
    simp only [Log.answers, Log.next, List.map_append, List.map_cons, List.map_nil] at earlier ⊢
    rw [earlier, answer', ← answer]

theorem Alike.filter (is : List Incident) (alike : Alike p g g') (sound : g.Sound p)
    (sound' : g'.Sound p) :
    Alike p (is.foldl Log.next g) ((is.filter (·.matters p)).foldl Log.next g') := by
  induction is generalizing g g' with
  | nil => exact alike
  | cons i is ih =>
    cases matters : i.matters p with
    | false =>
      rw [List.filter_cons_of_neg (by simp [matters])]
      exact ih (alike.idle matters) (sound.next i) sound'
    | true =>
      rw [List.filter_cons_of_pos matters]
      exact ih (alike.next sound sound' i) (sound.next i) (sound'.next i)

end Log

/-- After every run of notices and checks, at whatever times, a check reports a change exactly if it
    sees no news itself, a check has seen news that none has reported since, and the last one that
    did was the quiet time ago. Notices of other files change no answer. -/
theorem bursts_reported (p : Path) (is : List Incident) (now : Nat) :
    (((Log.run p is).watcher.check now).2 = true ↔
      news p (Log.run p is).unseen = false ∧
        ∃ time, Pends p (Log.run p is).looks time ∧ time + settlingTime ≤ now) ∧
      (Log.run p (is.filter (·.matters p))).answers = (Log.run p is).answers := by
  have sound := Log.sound_run p is
  have first : Log.Alike p (.start p) (.start p) := ⟨rfl, rfl, rfl⟩
  exact ⟨sound.check_iff now,
    (first.filter is (Log.sound_start p) (Log.sound_start p)).answers⟩

end ShaderBench.Files
