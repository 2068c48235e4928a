import ShaderBench.Proofs.Gpu.Lowering
import ShaderBench.Proofs.Shader.ZeroPieces
/-
The lines of a document in its lowered program. A line that no pass rewrites is still there, and it
is told by its own number as long as the passes before it keep all line breaks.
-/
namespace ShaderBench.Gpu
open Shader Text

def Unrewritten (document : List Char) (k : Nat) (line : List Char) : Prop :=
  ∃ k₁ k₂ k₃ j, Carried (semanticPieces document) k k₁ line ∧
    Carried (redeclaredPieces (stripSemantics document)) k₁ k₂ line ∧
    Carried (zeroPieces false (neutralize (stripSemantics document))) k₂ k₃ line ∧
    Carried (loweredPieces (assemble document)) (newlines header + k₃) j line

/-- The body has the line breaks of the document, and each line that no pass rewrites stands in the
    lowered program at the place that its number leads to and is told by that number. Lines are
    numbered from 1. -/
def PointsBack (document : List Char) : Prop :=
  ∃ lowered first, lower (assemble document) = .ok lowered ∧ lowered.bodyLine = some first ∧
    newlines (body document) = newlines document ∧
    ∀ k line, Unrewritten document k line →
      line? (first + k - 1) lowered.glsl = some line ∧
        lowered.locate (first + k) = .document (k + 1)

theorem newlines_body_iff (document : List Char) :
    newlines (body document) = newlines document ↔
      KeepsBreaks (semanticPieces document) ∧
        KeepsBreaks (zeroPieces false (neutralize (stripSemantics document))) := by
  have strips := newlines_stripSemantics_le document
  have neutral := newlines_neutralize (stripSemantics document)
  have coerces := newlines_coerceZeros_le (neutralize (stripSemantics document))
  constructor
  · intro same
    rw [body] at same
    constructor
    · apply keepsBreaks_of_newlines (semanticPieces_shrinks document)
      rw [rewritten_semanticPieces, original_semanticPieces]
      omega
    · apply keepsBreaks_of_newlines (zeroPieces_shrinks false _)
      rw [rewritten_zeroPieces, original_zeroPieces]
      omega
  · rintro ⟨first, last⟩
    have stripped := first.newlines
    have coerced := last.newlines
    rw [rewritten_semanticPieces, original_semanticPieces] at stripped
    rw [rewritten_zeroPieces, original_zeroPieces] at coerced
    rw [body, coerced, neutral, stripped]

theorem carried_lowered {document line : List Char} {m j : Nat}
    (carried : Carried (loweredPieces (assemble document)) (newlines header + m) j line) :
    j = newlines header + newlines (blockOf (membersOf document)) + m := by
  obtain ⟨before, back, pieces, early, keeps⟩ := loweredPieces_assemble document
  have unbroken : newlines parameterMark.toList = 0 := newlines_eq_zero (by decide)
  have far : newlines before < newlines header + m := Nat.lt_of_lt_of_le early (Nat.le_add_right _ m)
  rw [pieces] at carried
  have later := carried.past (keepsBreaks_untouched before) keeps unbroken (by
    rw [original_untouched]
    exact far)
  rw [later, Piece.new]
  omega

theorem carried_located {document line : List Char} {lowered : Lowered} {m j : Nat}
    (carried : Carried (loweredPieces (assemble document)) (newlines header + m) j line)
    (glsl : lowered.glsl = rewritten (loweredPieces (assemble document))) {first : Nat}
    (counted : first = newlines header + newlines (blockOf (membersOf document)) + 1)
    (begins : lowered.bodyLine = some first) :
    line? (first + m - 1) lowered.glsl = some line ∧
      lowered.locate (first + m) = .document (m + 1) := by
  constructor
  · have place : first + m - 1 = j := by
      rw [carried_lowered carried, counted]
      omega
    rw [place, glsl]
    exact carried.line?.2
  · have reached : first ≤ first + m := Nat.le_add_right first m
    simp only [Lowered.locate, begins, if_pos reached, Nat.add_sub_cancel_left]

/-- Diagnostics point at the document's own lines exactly if no semantic that is removed and no zero
    initializer that gets a new form has a line break. -/
theorem points_back_iff (document : List Char) :
    PointsBack document ↔
      Unbroken (semanticPieces document) ∧
        Unbroken (zeroPieces false (neutralize (stripSemantics document))) := by
  rw [← semanticPieces_keepsBreaks_iff, ← zeroPieces_keepsBreaks_iff]
  constructor
  · rintro ⟨_, _, _, _, same, _⟩
    exact (newlines_body_iff document).mp same
  · rintro ⟨strips, coerces⟩
    obtain ⟨lowered, made, glsl, _, begins⟩ := lowered_parts document
    refine ⟨lowered, _, made, begins, (newlines_body_iff document).mpr ⟨strips, coerces⟩, ?_⟩
    rintro k line ⟨k₁, k₂, k₃, j, stripped, neutralized, coerced, carried⟩
    have same : k₃ = k := by
      rw [coerced.same_place coerces, neutralized.same_place (redeclaredPieces_keepsBreaks _),
        stripped.same_place strips]
    subst same
    exact carried_located carried glsl rfl begins

theorem not_pointsBack_split : ¬ PointsBack "float\nx = 0;".toList := by
  rintro ⟨_, _, _, _, same, _⟩
  exact absurd same (by decide +kernel)

end ShaderBench.Gpu
