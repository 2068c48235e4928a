import ShaderBench.Proofs.Shader.Tiles
/-
Tiles that lie one behind the other. Every source is laid with them from its start to its end, and
each of its bytes belongs to one of them.
-/
namespace ShaderBench.Shader
open Text

/-- Tiles that lie one behind the other, from the end of the text before to the end of the
    source. -/
inductive Tiled : List Char → List Tile → List Char → Prop where
  | done {before : List Char} : Tiled before [] []
  | tile {before after : List Char} {tile : Tile} {tiles : List Tile}
      (fits : Fits before after tile)
      (rest : Tiled (before ++ tile.text) tiles after) :
      Tiled before (tile :: tiles) (tile.text ++ after)

theorem exists_tiled (before source : List Char) : ∃ tiles, Tiled before tiles source := by
  induction size : source.length using Nat.strong_induction_on generalizing before source with
  | h bound ih =>
    cases source with
    | nil => exact ⟨[], .done⟩
    | cons c source =>
      obtain ⟨tile, after, parts, fits⟩ := exists_tile before c source
      have filled := List.length_pos_iff.mpr fits.filled
      have shorter : after.length < bound := by
        rw [← size, parts, List.length_append]
        omega
      obtain ⟨tiles, rest⟩ := ih after.length shorter (before ++ tile.text) after rfl
      rw [parts]
      exact ⟨tile :: tiles, .tile fits rest⟩

theorem Tiled.texts {before source : List Char} {tiles : List Tile}
    (tiled : Tiled before tiles source) : tiles.flatMap Tile.text = source := by
  induction tiled with
  | done => rfl
  | tile fits rest ih => rw [List.flatMap_cons, ih]

def laid : Nat → List Tile → List (Nat × Tile)
  | _, [] => []
  | position, tile :: tiles => (position, tile) :: laid (position + byteLength tile.text) tiles

def Tile.token? (position : Nat) : Tile → Option Token
  | .token kind text => some ⟨kind, position, text⟩
  | .blank _ | .skipped _ _ => none

def tokensAmong (position : Nat) (tiles : List Tile) : List Token :=
  (laid position tiles).filterMap fun placed => placed.2.token? placed.1

theorem tokensAmong_cons (position : Nat) (tile : Tile) (tiles : List Tile) :
    tokensAmong position (tile :: tiles) =
      (tile.token? position).toList ++ tokensAmong (position + byteLength tile.text) tiles := by
  rw [tokensAmong, laid, List.filterMap_cons]
  cases tile.token? position <;> rfl

def Tile.isGap : Tile → Bool
  | .blank _ | .skipped _ _ => true
  | .token _ _ => false

/-- Whether a tile that begins at a byte position takes up the given one. -/
def Covers (placed : Nat × Tile) (place : Nat) : Prop :=
  placed.1 ≤ place ∧ place < placed.1 + byteLength placed.2.text

theorem mem_tokensAmong {position : Nat} {tiles : List Tile} {t : Token} :
    t ∈ tokensAmong position tiles ↔ (t.start, .token t.kind t.text) ∈ laid position tiles := by
  constructor
  · intro listed
    obtain ⟨⟨start, tile⟩, member, token⟩ := List.mem_filterMap.mp listed
    cases tile with
    | blank c => cases token
    | skipped kind inner => cases token
    | token kind text =>
      cases token
      exact member
  · exact fun member => List.mem_filterMap.mpr ⟨_, member, rfl⟩

theorem laid_parts {position : Nat} {tiles : List Tile} {placed : Nat × Tile}
    (listed : placed ∈ laid position tiles) :
    ∃ before after, tiles.flatMap Tile.text = before ++ placed.2.text ++ after ∧
      placed.1 = position + byteLength before := by
  induction tiles generalizing position with
  | nil => cases listed
  | cons tile tiles ih =>
    rw [List.flatMap_cons]
    rcases List.mem_cons.mp listed with here | later
    · exact ⟨[], tiles.flatMap Tile.text, by rw [here]; rfl, by rw [here]; rfl⟩
    · obtain ⟨before, after, parts, start⟩ := ih later
      refine ⟨tile.text ++ before, after, ?_, ?_⟩
      · rw [parts]
        simp
      · rw [start, byteLength_append, Nat.add_assoc]

/-- Every byte of the tiles is taken up by a token or else by a gap, and by one of them only. -/
theorem laid_covered {position place : Nat} {tiles : List Tile} (from_start : position ≤ place)
    (within : place < position + byteLength (tiles.flatMap Tile.text)) :
    (∃ placed ∈ laid position tiles, placed.2.isGap = false ∧ Covers placed place) ↔
      ¬ ∃ placed ∈ laid position tiles, placed.2.isGap ∧ Covers placed place := by
  induction tiles generalizing position with
  | nil =>
    simp only [List.flatMap_nil, byteLength_nil] at within
    omega
  | cons tile tiles ih =>
    rw [List.flatMap_cons, byteLength_append] at within
    simp only [laid, List.exists_mem_cons_iff]
    by_cases here : place < position + byteLength tile.text
    · -- The later tiles begin behind the place.
      have none : ∀ placed ∈ laid (position + byteLength tile.text) tiles,
          ¬ Covers placed place := by
        intro placed listed covers
        obtain ⟨before, after, parts, start⟩ := laid_parts listed
        have first := covers.1
        omega
      have covers : Covers (position, tile) place := ⟨from_start, here⟩
      have later : ∀ gap, ¬ ∃ placed ∈ laid (position + byteLength tile.text) tiles,
          placed.2.isGap = gap ∧ Covers placed place :=
        fun gap ⟨placed, listed, _, reaches⟩ => none placed listed reaches
      simp only [covers, later, and_true, or_false]
      exact Bool.eq_false_iff
    · have past : ¬ Covers (position, tile) place := fun covers => here covers.2
      simp only [past, and_false, false_or]
      exact ih (by omega) (by omega)

theorem covered_iff {position place : Nat} {tiles : List Tile} :
    (∃ t ∈ tokensAmong position tiles, t.start ≤ place ∧ place < t.stop) ↔
      ∃ placed ∈ laid position tiles, placed.2.isGap = false ∧ Covers placed place := by
  constructor
  · rintro ⟨t, listed, covers⟩
    exact ⟨_, mem_tokensAmong.mp listed, rfl, covers⟩
  · rintro ⟨⟨start, tile⟩, member, plain, covers⟩
    cases tile with
    | blank c => cases plain
    | skipped kind inner => cases plain
    | token kind text =>
      exact ⟨⟨kind, start, text⟩, mem_tokensAmong.mpr member, covers⟩

end ShaderBench.Shader
