import Mathlib.Algebra.Group.Int.Defs
import Mathlib.Algebra.Group.Nat.Defs
import Quill.Number.Numeral

/-!
Numerals as relations between a text and a number. A reader of numerals gives a number exactly when
the text writes one and the number lies in the range of the machine word.
-/
namespace Quill.Numeral

/-- One or more digits that write a number. -/
structure Digits (text : List Char) (n : Nat) : Prop where
  nonempty : text ≠ []
  digits : ∀ c ∈ text, c.isDigit = true
  value : ofDigits text = n

/-- Digits that may have a plus sign in front. -/
inductive Unsigned : List Char → Nat → Prop
  | bare {text : List Char} {n : Nat} (h : Digits text n) : Unsigned text n
  | plus {text : List Char} {n : Nat} (h : Digits text n) : Unsigned ('+' :: text) n

/-- Digits that may have a sign in front. -/
inductive Signed : List Char → Int → Prop
  | unsigned {text : List Char} {n : Nat} (h : Unsigned text n) : Signed text n
  | minus {text : List Char} {n : Nat} (h : Digits text n) : Signed ('-' :: text) (-n)

theorem Signed.digit {c : Char} (h : c.isDigit = true) : Signed [c] (ofDigits [c] : Nat) :=
  .unsigned (.bare ⟨by simp, by simpa using h, rfl⟩)

theorem digits?_eq_some_iff {text : List Char} {n : Nat} :
    digits? text = some n ↔ Digits text n := by
  unfold digits?
  split
  · next h =>
    have digits : ∀ c ∈ text, c.isDigit = true := by simpa using h.2
    simp only [Option.some.injEq]
    exact ⟨fun value => ⟨h.1, digits, value⟩, fun h => h.value⟩
  · next h =>
    simp only [reduceCtorEq, false_iff]
    intro written
    exact h ⟨written.nonempty, by simpa using written.digits⟩

/-- No digit is a sign. -/
theorem Digits.head_isDigit {c : Char} {text : List Char} {n : Nat} (h : Digits (c :: text) n) :
    c.isDigit = true :=
  h.digits c (by simp)

/-- The text of a number is a numeral of it. -/
theorem digits_toString (n : Nat) : Digits (toString n).toList n := by
  rw [Nat.toString_eq_ofList_toDigits, String.toList_ofList]
  refine ⟨Nat.toDigits_ne_nil, fun c member => ?_, ?_⟩
  · exact Nat.isDigit_of_mem_toDigits (by decide) (by decide) member
  · exact Nat.ofDigitChars_ten_toDigits

theorem not_mem_toDigits {mark : Char} (h : mark.isDigit = false) (n : Nat) :
    mark ∉ Nat.toDigits 10 n := by
  intro member
  rw [Nat.isDigit_of_mem_toDigits (by decide) (by decide) member] at h
  cases h

theorem not_mem_toString {mark : Char} (h : mark.isDigit = false) (n : Nat) :
    mark ∉ (toString n).toList := by
  rw [Nat.toString_eq_ofList_toDigits, String.toList_ofList]
  exact not_mem_toDigits h n

/-- Numbers with one numeral are equal. -/
theorem toString_inj {n m : Nat} (h : toString n = toString m) : n = m := by
  have value := (digits_toString n).value
  rw [h] at value
  exact value.symm.trans (digits_toString m).value

/-- The numeral of an integer has digits, and a minus sign at most. -/
theorem isDigit_or_of_mem_toString {n : Int} {c : Char} (member : c ∈ (toString n).toList) :
    c.isDigit = true ∨ c = '-' := by
  cases n with
  | ofNat n => exact .inl ((digits_toString n).digits c member)
  | negSucc n =>
    have text : toString (Int.negSucc n) = "-" ++ toString (n + 1) := rfl
    rw [text, String.toList_append, List.mem_append] at member
    rcases member with sign | digit
    · exact .inr (by simpa using sign)
    · exact .inl ((digits_toString (n + 1)).digits c digit)

theorem toString_ofNat_ne_negSucc (n m : Nat) :
    toString (Int.ofNat n) ≠ toString (Int.negSucc m) := by
  intro same
  have sign : '-' ∈ (toString (Int.negSucc m)).toList := by
    have text : toString (Int.negSucc m) = "-" ++ toString (m + 1) := rfl
    simp [text]
  rw [← same] at sign
  exact not_mem_toString rfl n sign

theorem toString_int_inj {n m : Int} (h : toString n = toString m) : n = m := by
  cases n with
  | ofNat n =>
    cases m with
    | ofNat m => exact congrArg Int.ofNat (toString_inj h)
    | negSucc m => exact absurd h (toString_ofNat_ne_negSucc n m)
  | negSucc n =>
    cases m with
    | ofNat m => exact absurd h.symm (toString_ofNat_ne_negSucc m n)
    | negSucc m =>
      have digits : toString (n + 1) = toString (m + 1) := (String.append_right_inj "-").mp h
      exact congrArg Int.negSucc (Nat.succ.inj (toString_inj digits))

theorem sizeLimit_eq : sizeLimit = 2 ^ 64 := rfl

theorem integerLimit_eq : integerLimit = 2 ^ 63 := rfl

theorem size?_eq_some_iff {text : List Char} {n : Nat} :
    size? text = some n ↔ Unsigned text n ∧ n < 2 ^ 64 := by
  unfold size?
  dsimp only
  split
  · next digits =>
    rw [Option.filter_eq_some_iff, digits?_eq_some_iff, decide_eq_true_eq, sizeLimit_eq]
    constructor
    · intro h
      obtain ⟨written, bound⟩ := h
      exact ⟨.plus written, bound⟩
    · intro h
      obtain ⟨written, bound⟩ := h
      cases written with
      | bare h => exact absurd h.head_isDigit (by decide)
      | plus h => exact ⟨h, bound⟩
  · next noSign =>
    rw [Option.filter_eq_some_iff, digits?_eq_some_iff, decide_eq_true_eq, sizeLimit_eq]
    constructor
    · intro h
      obtain ⟨written, bound⟩ := h
      exact ⟨.bare written, bound⟩
    · intro h
      obtain ⟨written, bound⟩ := h
      cases written with
      | bare h => exact ⟨h, bound⟩
      | plus h => exact absurd rfl (noSign _)

/-- What a numeral without a minus sign gives. -/
private theorem map_ofNat_eq_some_iff {text : List Char} {n : Int} :
    ((digits? text).filter (· < integerLimit)).map Int.ofNat = some n ↔
      ∃ m : Nat, Digits text m ∧ m < 2 ^ 63 ∧ n = m := by
  simp only [Option.map_eq_some_iff, Option.filter_eq_some_iff, digits?_eq_some_iff,
    decide_eq_true_eq]
  simp only [integerLimit_eq]
  constructor
  · intro h
    obtain ⟨m, ⟨written, below⟩, rfl⟩ := h
    exact ⟨m, written, below, rfl⟩
  · intro h
    obtain ⟨m, written, below, rfl⟩ := h
    exact ⟨m, ⟨written, below⟩, rfl⟩

/-- What a numeral with a minus sign gives. -/
private theorem integer?_minus_eq_some_iff {text : List Char} {n : Int} :
    integer? ('-' :: text) = some n ↔ ∃ m : Nat, Digits text m ∧ m ≤ 2 ^ 63 ∧ n = -m := by
  simp only [integer?, Option.map_eq_some_iff, bind, Option.bind_eq_some_iff, pure,
    Option.some.injEq, Option.filter_eq_some_iff, digits?_eq_some_iff, decide_eq_true_eq]
  simp only [integerLimit_eq]
  constructor
  · intro h
    obtain ⟨_, ⟨m, ⟨written, bound⟩, rfl⟩, rfl⟩ := h
    exact ⟨m, written, bound, rfl⟩
  · intro h
    obtain ⟨m, written, bound, rfl⟩ := h
    exact ⟨m, ⟨m, ⟨written, bound⟩, rfl⟩, rfl⟩

theorem integer?_eq_some_iff {text : List Char} {n : Int} :
    integer? text = some n ↔ Signed text n ∧ -2 ^ 63 ≤ n ∧ n < 2 ^ 63 := by
  fun_cases integer? text with
  | case1 digits =>
    refine integer?_minus_eq_some_iff.trans ?_
    constructor
    · intro h
      obtain ⟨m, written, bound, rfl⟩ := h
      exact ⟨.minus written, by omega, by omega⟩
    · intro h
      obtain ⟨written, lower, upper⟩ := h
      cases written with
      | unsigned h =>
        cases h with
        | bare h => exact absurd h.head_isDigit (by decide)
      | minus h => exact ⟨_, h, by omega, rfl⟩
  | case2 digits =>
    rw [map_ofNat_eq_some_iff]
    constructor
    · intro h
      obtain ⟨m, written, below, rfl⟩ := h
      exact ⟨.unsigned (.plus written), by omega, by omega⟩
    · intro h
      obtain ⟨written, lower, upper⟩ := h
      cases written with
      | unsigned h =>
        cases h with
        | bare h => exact absurd h.head_isDigit (by decide)
        | plus h => exact ⟨_, h, by omega, rfl⟩
  | case3 _ noMinus noPlus =>
    rw [map_ofNat_eq_some_iff]
    constructor
    · intro h
      obtain ⟨m, written, below, rfl⟩ := h
      exact ⟨.unsigned (.bare written), by omega, by omega⟩
    · intro h
      obtain ⟨written, lower, upper⟩ := h
      cases written with
      | unsigned h =>
        cases h with
        | bare h => exact ⟨_, h, by omega, rfl⟩
        | plus h => exact absurd rfl (noPlus _)
      | minus h => exact absurd rfl (noMinus _)

end Quill.Numeral
