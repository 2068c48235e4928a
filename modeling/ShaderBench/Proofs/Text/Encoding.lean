import Mathlib.Data.List.DropRight
import ShaderBench.Proofs.Text.Bytes
/-
The bytes of a text in its UTF-8 form, each as the character of the same number. An ASCII character
is its own byte, and the bytes of all other characters are no ASCII characters, so a test that only
ASCII characters pass sees the same in the bytes as in the text.
-/
namespace ShaderBench.Text

def charBytes (c : Char) : List Char := (String.utf8EncodeChar c).map Char.ofUInt8

def bytesOf (s : List Char) : List Char := s.flatMap charBytes

def isAscii (c : Char) : Bool := c.toNat ≤ 127

def Narrow (p : Char → Bool) : Prop := ∀ c, p c → isAscii c

theorem charBytes_ascii {c : Char} (ascii : isAscii c) : charBytes c = [c] := by
  have small : c.val.toNat ≤ 127 := by simpa [isAscii] using ascii
  have one : c.utf8Size = 1 := Char.utf8Size_eq_one_iff.mpr (UInt32.le_iff_toNat_le.mpr small)
  rw [charBytes, String.utf8EncodeChar_eq_singleton one, List.map_singleton]
  congr 1
  apply Char.ext
  apply UInt32.toNat_inj.mp
  change c.val.toUInt8.toUInt32.toNat = c.val.toNat
  rw [UInt8.toNat_toUInt32, UInt32.toNat_toUInt8]
  omega

theorem charBytes_wide {c : Char} (wide : isAscii c = false) :
    ∀ b ∈ charBytes c, isAscii b = false := by
  have large : ¬ c.val.toNat ≤ 127 := by simpa [isAscii] using wide
  have bounded : ∀ n : Nat, 128 ≤ n % 256 → isAscii (Char.ofUInt8 (UInt8.ofNat n)) = false := by
    intro n high
    have number : (Char.ofUInt8 (UInt8.ofNat n)).toNat = n % 256 := rfl
    rw [isAscii, number, decide_eq_false_iff_not]
    omega
  intro b listed
  simp only [charBytes, String.utf8EncodeChar, List.mem_map] at listed
  obtain ⟨byte, listed, same⟩ := listed
  subst same
  rw [if_neg large] at listed
  split_ifs at listed with two three
  all_goals simp only [List.mem_cons, List.not_mem_nil, or_false] at listed
  · rcases listed with lead | last
    · exact lead ▸ bounded _ (by omega)
    · exact last ▸ bounded _ (by omega)
  · rcases listed with lead | middle | last
    · exact lead ▸ bounded _ (by omega)
    · exact middle ▸ bounded _ (by omega)
    · exact last ▸ bounded _ (by omega)
  · rcases listed with lead | second | third | last
    · exact lead ▸ bounded _ (by omega)
    · exact second ▸ bounded _ (by omega)
    · exact third ▸ bounded _ (by omega)
    · exact last ▸ bounded _ (by omega)

@[simp] theorem length_charBytes (c : Char) : (charBytes c).length = c.utf8Size := by
  rw [charBytes, List.length_map, String.length_utf8EncodeChar]

@[simp] theorem bytesOf_nil : bytesOf [] = [] := rfl

@[simp] theorem bytesOf_cons (c : Char) (s : List Char) :
    bytesOf (c :: s) = charBytes c ++ bytesOf s := rfl

@[simp] theorem bytesOf_append (s t : List Char) : bytesOf (s ++ t) = bytesOf s ++ bytesOf t :=
  List.flatMap_append

@[simp] theorem length_bytesOf (s : List Char) : (bytesOf s).length = byteLength s := by
  induction s with
  | nil => rfl
  | cons c s ih => rw [bytesOf_cons, List.length_append, length_charBytes, ih, byteLength_cons]

/-- The bytes of a character are no character that passes a test for ASCII characters, unless the
    character is ASCII and passes it. -/
theorem charBytes_narrow {p : Char → Bool} (narrow : Narrow p) {c b : Char}
    (listed : b ∈ charBytes c) : p b = p c := by
  cases ascii : isAscii c with
  | true =>
    rw [charBytes_ascii ascii, List.mem_singleton] at listed
    rw [listed]
  | false =>
    have wide := charBytes_wide ascii b listed
    have none : ∀ d, isAscii d = false → p d = false := fun d other =>
      Bool.eq_false_iff.mpr fun holds => by simp [narrow d holds] at other
    rw [none b wide, none c ascii]

section At
variable (before : List Char) (c : Char) (rest : List Char)

theorem bytesOf_at {k : Nat} (within : k < c.utf8Size) :
    (bytesOf (before ++ c :: rest))[byteLength before + k]? = (charBytes c)[k]? := by
  rw [bytesOf_append, ← length_bytesOf before, List.getElem?_append_right (Nat.le_add_right _ _),
    Nat.add_sub_cancel_left, bytesOf_cons, List.getElem?_append_left (by rwa [length_charBytes])]

theorem bytesOf_take (s : List Char) : (bytesOf (before ++ s)).take (byteLength before) =
    bytesOf before := by
  rw [bytesOf_append, ← length_bytesOf before, List.take_left]

theorem exists_first : ∃ b ∈ charBytes c,
    (bytesOf (before ++ c :: rest))[byteLength before]? = some b := by
  have some : 0 < (charBytes c).length := by
    rw [length_charBytes]
    exact c.utf8Size_pos
  have first := bytesOf_at before c rest c.utf8Size_pos
  rw [Nat.add_zero, List.getElem?_eq_getElem some] at first
  exact ⟨_, List.getElem_mem some, first⟩

end At

/-- A test for ASCII characters sees at a place between characters what the next one is. -/
theorem byte_narrow {p : Char → Bool} (narrow : Narrow p) (before rest : List Char) :
    ((bytesOf (before ++ rest))[byteLength before]?).any p = rest.head?.any p := by
  cases rest with
  | nil =>
    rw [List.append_nil, List.getElem?_eq_none (Nat.le_of_eq (length_bytesOf before))]
    rfl
  | cons c rest =>
    obtain ⟨b, listed, first⟩ := exists_first before c rest
    rw [first]
    exact charBytes_narrow narrow listed

theorem narrow_eq {a : Char} (ascii : isAscii a) : Narrow (· = a) := by
  intro c same
  rwa [of_decide_eq_true same]

theorem byte_ascii {a : Char} (ascii : isAscii a) (before rest : List Char) :
    (bytesOf (before ++ rest))[byteLength before]? = some a ↔ rest.head? = some a := by
  have same := byte_narrow (narrow_eq ascii) before rest
  simpa [Option.any_eq_true] using Bool.eq_iff_iff.mp same

theorem bytesOf_rtakeWhile {p : Char → Bool} (narrow : Narrow p) (s : List Char) :
    (bytesOf s).rtakeWhile p = s.rtakeWhile p := by
  induction s using List.reverseRecOn with
  | nil => rfl
  | append_singleton s c ih =>
    rw [bytesOf_append, bytesOf_cons, bytesOf_nil, List.append_nil, List.rtakeWhile_concat]
    cases holds : p c with
    | true => rw [charBytes_ascii (narrow c holds), List.rtakeWhile_concat, holds, ih]
    | false =>
      rcases List.eq_nil_or_concat (charBytes c) with none | ⟨front, b, parts⟩
      · have some := c.utf8Size_pos
        rw [← length_charBytes, none] at some
        cases some
      · rw [List.concat_eq_append] at parts
        have fails : p b = false := by
          rw [charBytes_narrow narrow (c := c) (by rw [parts]; simp), holds]
        rw [parts, ← List.append_assoc, List.rtakeWhile_concat, fails]
        rfl

theorem bytesOf_getLast? {a : Char} (ascii : isAscii a) (s : List Char) :
    (bytesOf s).getLast? = some a ↔ s.getLast? = some a := by
  have runs := bytesOf_rtakeWhile (narrow_eq ascii) s
  have ends : ∀ t : List Char, t.getLast? = some a ↔ t.rtakeWhile (· = a) ≠ [] := by
    intro t
    rcases List.eq_nil_or_concat t with none | ⟨front, b, parts⟩
    · simp [none]
    · rw [parts, List.concat_eq_append, List.rtakeWhile_concat]
      by_cases same : b = a <;> simp [same]
  rw [ends, ends, runs]

theorem ascii_of_isAlphanum {c : Char} (alphanumeric : c.isAlphanum) : c.toNat < 128 := by
  have kinds : (c.isUpper || c.isLower) || c.isDigit := alphanumeric
  have last : ∃ d : Char, d.toNat < 128 ∧ c.val ≤ d.val := by
    rcases Bool.or_eq_true_iff.mp kinds with letter | digit
    · rcases Bool.or_eq_true_iff.mp letter with upper | lower
      · exact ⟨'Z', by decide, (of_decide_eq_true upper).2⟩
      · exact ⟨'z', by decide, of_decide_eq_true (Bool.and_eq_true_iff.mp lower).2⟩
    · exact ⟨'9', by decide, of_decide_eq_true (Bool.and_eq_true_iff.mp digit).2⟩
  obtain ⟨d, ascii, below⟩ := last
  exact Nat.lt_of_le_of_lt (UInt32.le_iff_toNat_le.mp below) ascii

end ShaderBench.Text
