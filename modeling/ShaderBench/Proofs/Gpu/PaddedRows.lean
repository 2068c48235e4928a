import ShaderBench.Gpu.Rows
import ShaderBench.Proofs.Gpu.Std140
/-
Pictures in a read-back buffer: each row is filled up to the least multiple of the alignment that
holds it, and a picture comes back without its filling, whatever that is.
-/
namespace ShaderBench.Gpu

def padRows (row : Nat) : List (List UInt8) → List UInt8 → List UInt8
  | [], _ => []
  | filling :: rest, picture => picture.take row ++ filling ++ padRows row rest (picture.drop row)

theorem word?_some {n m : Nat} : word? n = some m ↔ n = m ∧ m < UInt32.size := by
  unfold word?
  split
  · rename_i fits
    simp only [Option.some.injEq]
    constructor
    · rintro rfl
      exact ⟨rfl, fits⟩
    · exact And.left
  · rename_i large
    constructor
    · intro none
      cases none
    · rintro ⟨rfl, fits⟩
      exact absurd fits large

theorem rowBytes?_some {width row : Nat} :
    rowBytes? width = some row ↔ 4 * width = row ∧ row < UInt32.size := by
  rw [rowBytes?, bytesPerPixel, Nat.mul_comm, word?_some]

theorem paddedRowBytes?_some {width padded : Nat} :
    paddedRowBytes? width = some padded ↔
      roundUp (4 * width) rowAlignment = padded ∧ padded < UInt32.size := by
  have holds : 4 * width ≤ roundUp (4 * width) rowAlignment := le_roundUp _ (by decide)
  rw [paddedRowBytes?, Option.bind_eq_bind, Option.bind_eq_some_iff]
  constructor
  · rintro ⟨row, bytes, rounded⟩
    rw [← (rowBytes?_some.mp bytes).1] at rounded
    exact word?_some.mp rounded
  · rintro ⟨rounded, fits⟩
    exact ⟨4 * width, rowBytes?_some.mpr ⟨rfl, by omega⟩, word?_some.mpr ⟨rounded, fits⟩⟩

section Rows
variable {row padded : Nat} (positive : 0 < padded)
include positive

theorem unpadFrom_cons {first filling : List UInt8} (whole : first.length = row)
    (fills : row + filling.length = padded) (height : Nat) (rest : List UInt8) :
    unpadFrom row padded (height + 1) (first ++ filling ++ rest) =
      (unpadFrom row padded height rest).map (first ++ ·) := by
  have length : (first ++ filling).length = padded := by
    rw [List.length_append, whole, fills]
  have some : (first ++ filling ++ rest).isEmpty = false := by
    rw [List.isEmpty_eq_false_iff, ← List.length_pos_iff, List.length_append]
    omega
  have long : ¬ ((first ++ filling ++ rest).take padded).length < row := by
    rw [List.take_left' length]
    omega
  have head : (first ++ filling ++ rest).take row = first := by
    rw [List.append_assoc, List.take_left' whole]
  rw [unpadFrom, some, if_neg Bool.false_ne_true, if_neg long, head, List.drop_left' length]

theorem unpadFrom_padRows {fillings : List (List UInt8)} {picture : List UInt8}
    (whole : picture.length = fillings.length * row)
    (fills : ∀ filling ∈ fillings, row + filling.length = padded) (rest : List UInt8) :
    unpadFrom row padded fillings.length (padRows row fillings picture ++ rest) = some picture := by
  induction fillings generalizing picture with
  | nil =>
    rw [List.length_nil, Nat.zero_mul, List.length_eq_zero_iff] at whole
    rw [whole]
    rfl
  | cons filling fillings ih =>
    rw [List.length_cons, Nat.succ_mul] at whole
    have first : (picture.take row).length = row := by
      rw [List.length_take]
      omega
    have later : (picture.drop row).length = fillings.length * row := by
      rw [List.length_drop]
      omega
    rw [List.length_cons, padRows, List.append_assoc,
      unpadFrom_cons positive first (fills filling List.mem_cons_self),
      ih later (fun f member => fills f (List.mem_cons_of_mem filling member)), Option.map_some,
      List.take_append_drop]

end Rows

theorem pictureLimit_large : UInt32.size ≤ pictureLimit := by decide

/-- A padded row has the least number of bytes that is a multiple of 256 and holds four bytes for
    each pixel. Whatever fills the rows of a picture, and whatever follows the last one, the picture
    comes back, if the number of all bytes fits its word. -/
theorem padding_undone {width height : Nat} (wide : 1 ≤ width)
    (row_fits : roundUp (4 * width) 256 < UInt32.size)
    (rows_fit : roundUp (4 * width) 256 * height < UInt32.size) :
    ∃ padded, paddedRowBytes? width = some padded ∧
      IsLeast {n | 256 ∣ n ∧ 4 * width ≤ n} padded ∧
      ∀ (picture rest : List UInt8) (fillings : List (List UInt8)),
        picture.length = height * (4 * width) → fillings.length = height →
        (∀ filling ∈ fillings, 4 * width + filling.length = padded) →
        unpadRows (padRows (4 * width) fillings picture ++ rest) width height padded =
          some picture := by
  have least := roundUp_least (4 * width) (show 0 < 256 by decide)
  have holds : 4 * width ≤ roundUp (4 * width) 256 := least.1.2
  refine ⟨roundUp (4 * width) 256, paddedRowBytes?_some.mpr ⟨rfl, row_fits⟩, least, ?_⟩
  intro picture rest fillings whole count fills
  have row : rowBytes? width = some (4 * width) := rowBytes?_some.mpr ⟨rfl, by omega⟩
  have small : 4 * width * height ≤ roundUp (4 * width) 256 * height :=
    Nat.mul_le_mul_right height holds
  have large := pictureLimit_large
  rw [unpadRows, row, Option.bind_eq_bind, Option.bind_some, if_neg, ← count]
  · exact unpadFrom_padRows (by omega) (by rw [whole, count]) fills rest
  · simp only [Bool.or_eq_true, decide_eq_true_eq]
    omega

theorem padding_undone_pixels :
    unpadRows (padRows 4 [List.replicate 252 0, List.replicate 252 255] [1, 2, 3, 4, 5, 6, 7, 8] ++
      List.replicate 256 9) 1 2 256 = some [1, 2, 3, 4, 5, 6, 7, 8] := by
  obtain ⟨padded, bytes, _, undone⟩ := padding_undone (show 1 ≤ 1 by decide)
    (show roundUp (4 * 1) 256 < UInt32.size by decide)
    (show roundUp (4 * 1) 256 * 2 < UInt32.size by decide)
  have same : paddedRowBytes? 1 = some 256 := by decide
  cases bytes.symm.trans same
  refine undone _ _ _ rfl rfl ?_
  intro filling member
  simp only [List.mem_cons, List.not_mem_nil, or_false] at member
  rcases member with rfl | rfl <;> rw [List.length_replicate]

end ShaderBench.Gpu
