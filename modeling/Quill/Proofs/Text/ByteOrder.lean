import Mathlib.Algebra.Group.Nat.Defs

/-!
Texts in the order of their characters are in the order of their bytes, where UTF-8 is the encoding
(`bytes_le_iff`). A character has a first byte, which tells how many follow, and then six bits in
each byte, the upper ones first.
-/
namespace Quill.Text

def bytes (text : String) : List UInt8 := text.toByteArray.data.toList

theorem bytes_eq (text : String) : bytes text = text.toList.flatMap String.utf8EncodeChar := by
  rw [bytes, ← String.utf8Encode_toList, List.utf8Encode, List.data_toByteArray]

/-- The lower bits of a number, six in each of `count` bytes. -/
def trail (n : Nat) : Nat → List UInt8
  | 0 => []
  | count + 1 => UInt8.ofNat (n / 64 ^ count % 64 + 128) :: trail n count

/-- The bytes of a character: `mark` and the upper bits of its number, then the lower ones. -/
def units (mark count n : Nat) : List UInt8 := UInt8.ofNat (n / 64 ^ count + mark) :: trail n count

variable {m n : Nat} {rest others : List UInt8}

/-- A lesser byte in front decides. -/
theorem byte_cons_lt (less : m < n) (byte : n < 256) :
    UInt8.ofNat m :: rest < UInt8.ofNat n :: others := by
  have size : UInt8.size = 256 := rfl
  rw [List.cons_lt_cons_iff, UInt8.ofNat_lt_iff_lt (by omega) (by omega)]
  exact .inl less

theorem trail_append_lt (count : Nat) (less : m % 64 ^ count < n % 64 ^ count) :
    trail m count ++ rest < trail n count ++ others := by
  induction count with
  | zero =>
    rw [Nat.pow_zero, Nat.mod_one, Nat.mod_one] at less
    exact absurd less (Nat.lt_irrefl 0)
  | succ count ih =>
    rw [Nat.pow_succ, Nat.mod_mul, Nat.mod_mul] at less
    have below : m % 64 ^ count < 64 ^ count := Nat.mod_lt _ (Nat.pow_pos (by decide))
    rcases Nat.lt_trichotomy (m / 64 ^ count % 64) (n / 64 ^ count % 64) with first | same | last
    · exact byte_cons_lt (by omega) (by omega)
    · rw [trail, trail, same]
      rw [same] at less
      exact List.cons_lt_cons_self.mpr (ih (by omega))
    · have upper : 64 ^ count * (n / 64 ^ count % 64 + 1) ≤ 64 ^ count * (m / 64 ^ count % 64) :=
        Nat.mul_le_mul_left _ last
      rw [Nat.mul_add, Nat.mul_one] at upper
      have within : n % 64 ^ count < 64 ^ count := Nat.mod_lt _ (Nat.pow_pos (by decide))
      omega

/-- Numbers with equally many bytes. -/
theorem units_append_lt (mark count : Nat) (less : m < n) (byte : n / 64 ^ count + mark < 256) :
    units mark count m ++ rest < units mark count n ++ others := by
  rcases Nat.lt_or_eq_of_le (Nat.div_le_div_right (c := 64 ^ count) (Nat.le_of_lt less)) with
    upper | same
  · exact byte_cons_lt (Nat.add_lt_add_right upper mark) byte
  · have whole := Nat.div_add_mod m (64 ^ count)
    have larger := Nat.div_add_mod n (64 ^ count)
    rw [same] at whole
    rw [units, units, same]
    exact List.cons_lt_cons_self.mpr (trail_append_lt count (by omega))

theorem charNumber_lt (c : Char) : c.val.toNat < 0x110000 := by
  rcases c.valid with low | ⟨-, high⟩
  · exact Nat.lt_trans low (by decide)
  · exact high

theorem utf8EncodeChar_eq (c : Char) :
    String.utf8EncodeChar c =
      if c.val.toNat < 0x80 then units 0 0 c.val.toNat
      else if c.val.toNat < 0x800 then units 192 1 c.val.toNat
      else if c.val.toNat < 0x10000 then units 224 2 c.val.toNat
      else units 240 3 c.val.toNat := by
  have bound := charNumber_lt c
  unfold String.utf8EncodeChar
  generalize c.val.toNat = n at bound
  simp only [units, trail, Nat.reducePow, Nat.div_one, Nat.add_zero]
  by_cases one : n < 0x80
  · rw [if_pos one, if_pos (by omega)]
  rw [if_neg one, if_neg (by omega)]
  by_cases two : n < 0x800
  · rw [if_pos two, if_pos (by omega), Nat.mod_eq_of_lt (by omega : n / 64 < 32)]
  rw [if_neg two, if_neg (by omega)]
  by_cases three : n < 0x10000
  · rw [if_pos three, if_pos (by omega), Nat.mod_eq_of_lt (by omega : n / 4096 < 16)]
  · rw [if_neg three, if_neg (by omega), Nat.mod_eq_of_lt (by omega : n / 262144 < 8)]

/-- The bytes of a lesser character come first, whatever follows them. -/
theorem utf8EncodeChar_append_lt {c d : Char} (h : c < d) :
    String.utf8EncodeChar c ++ rest < String.utf8EncodeChar d ++ others := by
  have less : c.val.toNat < d.val.toNat := UInt32.lt_iff_toNat_lt.mp (Char.lt_def.mp h)
  have bound := charNumber_lt d
  rw [utf8EncodeChar_eq, utf8EncodeChar_eq]
  generalize c.val.toNat = m at less
  generalize d.val.toNat = n at less bound
  -- A character with more bytes has a greater first one.
  split
  · split
    · exact units_append_lt 0 0 less (by omega)
    split
    · exact byte_cons_lt (by omega) (by omega)
    split <;> exact byte_cons_lt (by omega) (by omega)
  split
  · rw [if_neg (by omega)]
    split
    · exact units_append_lt 192 1 less (by omega)
    split <;> exact byte_cons_lt (by omega) (by omega)
  split
  · rw [if_neg (by omega), if_neg (by omega)]
    split
    · exact units_append_lt 224 2 less (by omega)
    · exact byte_cons_lt (by omega) (by omega)
  · rw [if_neg (by omega), if_neg (by omega), if_neg (by omega)]
    exact units_append_lt 240 3 less (by omega)

theorem flatMap_utf8EncodeChar_lt {text target : List Char} (h : text < target) :
    text.flatMap String.utf8EncodeChar < target.flatMap String.utf8EncodeChar := by
  induction text generalizing target with
  | nil =>
    cases target with
    | nil => exact absurd h (List.not_lt_nil [])
    | cons d target =>
      have some_byte := List.append_ne_nil_of_left_ne_nil (String.utf8EncodeChar_ne_nil (c := d))
        (target.flatMap String.utf8EncodeChar)
      obtain ⟨byte, more, bytes⟩ := List.exists_cons_of_ne_nil some_byte
      rw [List.flatMap_nil, List.flatMap_cons, bytes]
      exact List.nil_lt_cons byte more
  | cons c text ih =>
    cases target with
    | nil => exact absurd h (List.not_lt_nil _)
    | cons d target =>
      rw [List.flatMap_cons, List.flatMap_cons]
      rcases List.cons_lt_cons_iff.mp h with less | ⟨rfl, later⟩
      · exact utf8EncodeChar_append_lt less
      · exact List.append_left_lt (ih later)

/-- Texts are in the order of their bytes. -/
theorem bytes_le_iff {text target : String} : bytes text ≤ bytes target ↔ text ≤ target := by
  show ¬ bytes target < bytes text ↔ ¬ target < text
  rw [String.lt_iff, bytes_eq, bytes_eq]
  refine not_congr ⟨fun less => ?_, flatMap_utf8EncodeChar_lt⟩
  apply Decidable.byContradiction
  intro notLess
  by_cases behind : text.toList < target.toList
  · exact List.lt_asymm less (flatMap_utf8EncodeChar_lt behind)
  · rw [List.le_antisymm (List.not_lt.mp behind) (List.not_lt.mp notLess)] at less
    exact List.lt_irrefl _ less

end Quill.Text
