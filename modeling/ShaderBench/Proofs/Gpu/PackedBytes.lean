import Mathlib.Data.Nat.Digits.Defs
import ShaderBench.Proofs.Gpu.Std140
import ShaderBench.Proofs.Number.Rounding
/-
What stands in the bytes of a packed block: in the place of each slot the value of its name, and
zeros in all other places. Written slot by slot over zeros, the block comes out the same.
-/
namespace ShaderBench.Gpu
open Param

def word (bytes : List UInt8) (i : Nat) : Nat :=
  Nat.ofDigits 256 (((bytes.drop (4 * i)).take 4).map UInt8.toNat)

/-- What the bytes of a member say about the components of a value: floating-point members hold the
    patterns of the first ones and zeros for those that are missing, integer members the first one
    as a saturated integer, for unsigned ones after it has been brought to zero at least. -/
def MemberType.Encodes (t : MemberType) (xs : List Single) (bytes : List UInt8) : Prop :=
  bytes.length = t.size ∧
    match t with
    | .float | .vec2 | .vec3 | .vec4 =>
      ∀ i < t.components, word bytes i = (xs.getD i .zero).bits.toNat
    | .int =>
      (xs.headD .zero).Saturated (-2147483648) 2147483647 ((word bytes 0 : ℤ).bmod 4294967296)
    | .uint => ((xs.headD .zero).max .zero).Saturated 0 4294967295 (word bytes 0)

section Words

theorem word_cons (x : Single) (bytes : List UInt8) : word (x.bytes ++ bytes) 0 = x.bits.toNat := by
  have bound : x.bits.toNat < 4294967296 := x.bits.toNat_lt
  have first : ((x.bytes ++ bytes).drop (4 * 0)).take 4 = x.bytes := rfl
  have parts : word (x.bytes ++ bytes) 0 = x.bits.toNat % 256 +
      256 * (x.bits.toNat / 256 % 256 + 256 * (x.bits.toNat / 65536 % 256 +
        256 * (x.bits.toNat / 16777216 % 256))) := by
    rw [word, first, Single.bytes]
    simp [Nat.ofDigits_cons, UInt32.toNat_shiftRight, Nat.shiftRight_eq_div_pow]
  rw [parts]
  omega

theorem word_flatMap {xs : List Single} {i : Nat} (bound : i < xs.length) :
    word (xs.flatMap Single.bytes) i = xs[i].bits.toNat := by
  induction xs generalizing i with
  | nil => cases bound
  | cons x xs ih =>
    rw [List.flatMap_cons]
    cases i with
    | zero => exact word_cons x _
    | succ i =>
      have next : (x.bytes ++ xs.flatMap Single.bytes).drop (4 * (i + 1)) =
          (xs.flatMap Single.bytes).drop (4 * i) := by
        rw [Nat.mul_succ, Nat.add_comm, ← List.drop_drop]
        rfl
      rw [word, next]
      exact ih (Nat.lt_of_succ_lt_succ bound)

theorem word_padded (xs : List Single) (n : Nat) {i : Nat} (bound : i < n) :
    word (((xs ++ List.replicate n Single.zero).take n).flatMap Single.bytes) i =
      (xs.getD i .zero).bits.toNat := by
  have long : n ≤ (xs ++ List.replicate n Single.zero).length := by simp
  have within : i < ((xs ++ List.replicate n Single.zero).take n).length := by
    rw [List.length_take_of_le long]
    exact bound
  rw [word_flatMap within, List.getElem_take, List.getElem_append]
  split
  · rename_i inside
    rw [List.getD_eq_getElem?_getD, List.getElem?_eq_getElem inside]
    rfl
  · rename_i outside
    rw [List.getElem_replicate, List.getD_eq_getElem?_getD,
      List.getElem?_eq_none (Nat.not_lt.mp outside)]
    rfl

theorem word_wordBytes (n : UInt32) : word (wordBytes n) 0 = n.toNat := by
  have own := word_cons ⟨n⟩ []
  rw [List.append_nil] at own
  exact own

theorem word_ofInt (n : ℤ) :
    (word (wordBytes (UInt32.ofInt n)) 0 : ℤ) = n % 4294967296 := by
  have least : 0 ≤ n % 4294967296 := Int.emod_nonneg n (by decide)
  have less : n % 4294967296 < 4294967296 := Int.emod_lt_of_pos n (by decide)
  have natural : (UInt32.ofInt n).toNat = (n % 4294967296).toNat % 4294967296 := UInt32.toNat_ofNat'
  rw [word_wordBytes, natural]
  omega

theorem word_signed {n : ℤ} (below : -2147483648 ≤ n) (above : n ≤ 2147483647) :
    (word (wordBytes (UInt32.ofInt n)) 0 : ℤ).bmod 4294967296 = n := by
  rw [word_ofInt, Int.bmod_def]
  split
  · omega
  · omega

theorem encodes_encode (t : MemberType) (xs : List Single) : t.Encodes xs (t.encode xs) := by
  refine ⟨t.length_encode xs, ?_⟩
  cases t with
  | float | vec2 | vec3 | vec4 => exact fun i bound => word_padded xs _ bound
  | int =>
    have below : (-2147483648 : ℤ) ≤ 0 := by decide
    have above : (0 : ℤ) ≤ 2147483647 := by decide
    have bounds := Single.roundInto_bounds below above (xs.headD .zero)
    have same : (word (MemberType.int.encode xs) 0 : ℤ).bmod 4294967296 =
        (xs.headD .zero).roundInto (-2147483648) 2147483647 := word_signed bounds.1 bounds.2
    dsimp only
    rw [same]
    exact Single.saturated_roundInto _ _ _
  | uint =>
    have above : (0 : ℤ) ≤ 4294967295 := by decide
    have bounds := Single.roundInto_bounds (Int.le_refl 0) above (xs.headD .zero)
    have same : (word (MemberType.uint.encode xs) 0 : ℤ) =
        (xs.headD .zero).roundInto 0 4294967295 % 4294967296 := word_ofInt _
    dsimp only
    have less : (xs.headD .zero).roundInto 0 4294967295 < 4294967296 := by omega
    rw [same, Int.emod_eq_of_lt bounds.1 less, ← Single.roundInto_max_zero above]
    exact Single.saturated_roundInto _ _ _

end Words

section Places
variable {position : Nat} {slots : List Slot}

theorem zero_outside (follow : Follow position slots) (ps : List Parameter) (k : Nat) {i : Nat}
    (behind : position ≤ i) (outside : ∀ s ∈ slots, ¬(s.offset ≤ i ∧ i < s.stop)) {b : UInt8}
    (here : (encodeFrom ps position slots ++ List.replicate k 0)[i - position]? = some b) :
    b = 0 := by
  induction slots generalizing position with
  | nil => exact List.eq_of_mem_replicate (List.mem_of_getElem? here)
  | cons s rest ih =>
    obtain ⟨order, later⟩ := follow
    obtain ⟨away, others⟩ := List.forall_mem_cons.mp outside
    have stop : s.stop = s.offset + s.type.size := rfl
    rw [encodeFrom, List.append_assoc, List.append_assoc] at here
    by_cases before : i < s.offset
    · rw [List.getElem?_append_left (by rw [List.length_replicate]; omega)] at here
      exact List.eq_of_mem_replicate (List.mem_of_getElem? here)
    · have past : s.stop ≤ i := by omega
      rw [List.getElem?_append_right (by rw [List.length_replicate]; omega),
        List.getElem?_append_right (by rw [List.length_replicate, s.length_encode]; omega)] at here
      have place : i - position - (List.replicate (s.offset - position) (0 : UInt8)).length -
          (s.encode ps).length = i - s.stop := by
        rw [List.length_replicate, s.length_encode]
        omega
      rw [place] at here
      exact ih later past others here

end Places

section Writing

/-- Bytes put over a part of a buffer. There is no answer where the part is not one of the buffer or
    not of the length of the bytes. -/
def overwrite? (buffer : List UInt8) (start stop : Nat) (bytes : List UInt8) :
    Option (List UInt8) :=
  if start ≤ stop ∧ stop ≤ buffer.length ∧ bytes.length = stop - start then
    some (buffer.take start ++ bytes ++ buffer.drop stop)
  else none

def Slot.write? (ps : List Parameter) (buffer : List UInt8) (s : Slot) : Option (List UInt8) :=
  match named ps s.name with
  | some p => overwrite? buffer s.offset s.stop (s.type.encode p.value.components)
  | none => some buffer

theorem overwrite?_middle {old bytes : List UInt8} (same : bytes.length = old.length)
    (front back : List UInt8) :
    overwrite? (front ++ old ++ back) front.length (front.length + old.length) bytes =
      some (front ++ bytes ++ back) := by
  have within : front.length + old.length ≤ (front ++ old ++ back).length := by
    simp only [List.length_append]
    omega
  have before : (front ++ old ++ back).take front.length = front := by
    rw [List.append_assoc, List.take_left]
  have after : (front ++ old ++ back).drop (front.length + old.length) = back := by
    rw [← List.length_append, List.drop_left]
  rw [overwrite?, if_pos ⟨by omega, within, by omega⟩, before, after]

theorem Slot.write?_zeros (ps : List Parameter) {s : Slot} {front : List UInt8}
    (place : front.length = s.offset) (back : List UInt8) :
    s.write? ps (front ++ List.replicate s.type.size 0 ++ back) =
      some (front ++ s.encode ps ++ back) := by
  unfold Slot.write?
  cases found : named ps s.name with
  | none =>
    rw [Slot.encode_absent found]
  | some p =>
    have stop : s.stop = front.length + (List.replicate s.type.size (0 : UInt8)).length := by
      rw [place, List.length_replicate]
      rfl
    dsimp only
    rw [Slot.encode_named found, stop, ← place]
    apply overwrite?_middle
    rw [s.type.length_encode, List.length_replicate]

theorem writeSlots_zeros (ps : List Parameter) {slots : List Slot} {front : List UInt8}
    (follow : Follow front.length slots) {k : Nat}
    (within : stopFrom front.length slots ≤ front.length + k) :
    slots.foldlM (Slot.write? ps) (front ++ List.replicate k 0) =
      some (front ++ encodeFrom ps front.length slots ++
        List.replicate (front.length + k - stopFrom front.length slots) 0) := by
  induction slots generalizing front k with
  | nil => simp [encodeFrom, stopFrom]
  | cons s rest ih =>
    obtain ⟨behind, later⟩ := follow
    have stop : s.stop = s.offset + s.type.size := rfl
    have order : s.stop ≤ stopFrom s.stop rest := later.le_stop
    rw [stopFrom_cons] at within ⊢
    obtain ⟨gap, eq_gap⟩ : ∃ gap, gap = List.replicate (s.offset - front.length) (0 : UInt8) :=
      ⟨_, rfl⟩
    have place : (front ++ gap).length = s.offset := by
      rw [List.length_append, eq_gap, List.length_replicate]
      omega
    have zeros : front ++ List.replicate k 0 = front ++ gap ++ List.replicate s.type.size 0 ++
        List.replicate (front.length + k - s.stop) 0 := by
      have count : k = s.offset - front.length + (s.type.size + (front.length + k - s.stop)) := by
        omega
      rw [eq_gap, List.append_assoc, List.append_assoc, ← List.replicate_add, ← List.replicate_add,
        ← count]
    have done : (front ++ gap ++ s.encode ps).length = s.stop := by
      rw [List.length_append, place, s.length_encode, stop]
    have room : s.stop + (front.length + k - s.stop) = front.length + k := by omega
    rw [zeros, List.foldlM_cons, Slot.write?_zeros ps place]
    simp only [Option.bind_eq_bind, Option.bind_some]
    rw [ih (done ▸ later) (by rw [done, room]; exact within), done, room, encodeFrom, ← eq_gap]
    simp only [List.append_assoc]

def Layout.written? (l : Layout) (ps : List Parameter) : Option (List UInt8) :=
  l.slots.foldlM (Slot.write? ps) (List.replicate l.size 0)

theorem Layout.Ordered.written? {l : Layout} (ordered : l.Ordered) (ps : List Parameter) :
    l.written? ps = some (l.pack ps) := by
  have within : stopFrom 0 l.slots ≤ 0 + l.size := by
    rw [Nat.zero_add]
    exact l.stop_le_size
  have follow : Follow ([] : List UInt8).length l.slots := ordered
  have written := writeSlots_zeros ps follow within
  rw [List.length_nil, Nat.zero_add] at written
  exact written

end Writing

section Dependence
variable {ps qs : List Parameter}

theorem named_filter (ps : List Parameter) (name : String) :
    named ps name = (ps.filter fun p => p.name = name).head? :=
  List.head?_filter.symm

theorem named_perm (distinct : Distinct ps) (perm : qs.Perm ps) (name : String) :
    named qs name = named ps name := by
  have distinct' : Distinct qs := (perm.map Parameter.name).nodup_iff.mpr distinct
  cases found : named ps name with
  | some p =>
    have listed : p ∈ qs := perm.mem_iff.mpr (List.mem_of_find?_eq_some found)
    rw [← named_name found]
    exact distinct'.named listed
  | none =>
    rw [named, List.find?_eq_none] at found ⊢
    intro p listed
    exact found p (perm.mem_iff.mp listed)

theorem Layout.pack_named {l : Layout} (same : ∀ s ∈ l.slots, named ps s.name = named qs s.name) :
    l.pack ps = l.pack qs := by
  apply Layout.pack_congr
  intro s listed
  exact Slot.encode_congr (congrArg (Option.map Parameter.value) (same s listed))

theorem Layout.pack_filter (l : Layout) (ps : List Parameter) :
    l.pack (ps.filter fun p => l.contains p.name) = l.pack ps := by
  apply Layout.pack_named
  intro s listed
  rw [named_filter, named_filter, List.filter_filter]
  congr 1
  apply List.filter_congr
  intro p _
  by_cases same : p.name = s.name
  · have known : l.contains s.name := List.any_eq_true.mpr ⟨s, listed, decide_eq_true rfl⟩
    simp [same, known]
  · simp [same]

end Dependence

/-- Packing fills the block: a slot holds the encoding of the first parameter of its name, or zeros
    if there is none, and all bytes outside the slots are zeros. Writing the values slot by slot
    over zeros never fails and gives the same block. Parameters that the layout does not name do
    not matter, nor does the order of parameters of different names. -/
theorem pack_exact (ms : List (String × MemberType)) (ps : List Parameter) :
    let l := Layout.ofPushes ms
    (l.pack ps).length = l.size ∧
      (∀ s ∈ l.slots, match named ps s.name with
        | some p => s.type.Encodes p.value.components (s.cut (l.pack ps))
        | none => s.cut (l.pack ps) = List.replicate s.type.size 0) ∧
      (∀ i b, (∀ s ∈ l.slots, ¬(s.offset ≤ i ∧ i < s.stop)) → (l.pack ps)[i]? = some b → b = 0) ∧
      l.written? ps = some (l.pack ps) ∧
      l.pack (ps.filter fun p => l.contains p.name) = l.pack ps ∧
      (∀ qs : List Parameter,
        (∀ name, (qs.filter fun p => p.name = name) = ps.filter fun p => p.name = name) →
        l.pack qs = l.pack ps) ∧
      ∀ qs, Distinct ps → qs.Perm ps → l.pack qs = l.pack ps := by
  intro l
  have ordered : l.Ordered := (Layout.placed_ofPushes ms).follow
  refine ⟨ordered.length_pack ps, ?_, ?_, ordered.written? ps, l.pack_filter ps, ?_, ?_⟩
  · intro s listed
    have bytes := ordered.cut_pack listed ps
    cases found : named ps s.name with
    | none => exact bytes.trans (Slot.encode_absent found)
    | some p =>
      dsimp only
      rw [bytes, Slot.encode_named found]
      exact encodes_encode s.type p.value.components
  · intro i b outside here
    exact zero_outside ordered ps _ (Nat.zero_le i) outside here
  · intro qs same
    apply Layout.pack_named
    intro s _
    rw [named_filter, named_filter, same]
  · intro qs distinct perm
    apply Layout.pack_named
    intro s _
    exact named_perm distinct perm s.name

end ShaderBench.Gpu
