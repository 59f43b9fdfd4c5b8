import Quill.Grammar.Statement
import Quill.Proofs.Number.Numeral

/-!
When readers of single tokens succeed, and with what. A reader that is put together from others
succeeds exactly when those do, one after the other.
-/
namespace Quill

/-- An operator is made of the tokens of one kind, so the kind of a token tells it. -/
theorem Operator.ofKind?_eq_some_iff {kind : TokenKind} {operator : Operator} :
    Operator.ofKind? kind = some operator ↔ kind = operator.kind := by
  constructor
  · intro h
    unfold Operator.ofKind? at h
    split at h <;> cases h <;> rfl
  · rintro rfl
    cases operator <;> rfl

theorem TypeName.ofKind?_eq_some_iff {kind : TokenKind} {type : TypeName} :
    TypeName.ofKind? kind = some type ↔ kind = type.kind := by
  constructor
  · intro h
    unfold TypeName.ofKind? at h
    split at h <;> cases h <;> rfl
  · rintro rfl
    cases type <;> rfl

namespace Outcome

variable {α β : Type} {rest : List Token}

/-- A phrase of two is read exactly if both are, the second one from where the first one ends. The
place between them is not told by the whole, so it is bound here. -/
theorem andThen_eq_done_iff {first : Outcome α} {next : α → List Token → Outcome β} {value : β} :
    first.andThen next = .done value rest ↔
      ∃ a mid, first = .done a mid ∧ next a mid = .done value rest := by
  cases first with
  | done a mid =>
    constructor
    · intro h
      exact ⟨a, mid, rfl, h⟩
    · intro h
      obtain ⟨_, _, same, h⟩ := h
      cases same
      exact h
  | failed cause mid => simp

end Outcome

namespace Reader

variable {α β : Type} {tokens rest : List Token} {cause : SyntaxCause} {kind : TokenKind}

theorem bind_eq_done_iff {first : Reader α} {next : α → Reader β} {value : β} :
    (first >>= next) tokens = .done value rest ↔
      ∃ a mid, first tokens = .done a mid ∧ next a mid = .done value rest :=
  Outcome.andThen_eq_done_iff

/-- A first part that is read can be taken off. Unlike the equivalence this also serves where the
rest fails. -/
theorem bind_of_done {first : Reader α} {next : α → Reader β} {a : α} {mid : List Token}
    (h : first tokens = .done a mid) : (first >>= next) tokens = next a mid := by
  rw [bind_apply, h]
  rfl

theorem pure_eq_done_iff {value result : α} :
    (pure value : Reader α) tokens = .done result rest ↔ value = result ∧ tokens = rest := by
  simp

/-- All readers of one token are `token` with another `make?`. Each has an equivalence, to take
apart what was read, and a form `_of_kind`, to run it on a token at hand. -/
theorem token_eq_done_iff {make? : Token → Option α} {value : α} :
    token cause make? tokens = .done value rest ↔
      ∃ t, tokens = t :: rest ∧ make? t = some value := by
  cases tokens with
  | nil => simp [token]
  | cons t more =>
    cases made : make? t <;> simp [token, made, and_comm, and_assoc]

theorem expect_eq_done_iff {value : Unit} :
    expect cause kind tokens = .done value rest ↔ ∃ t, tokens = t :: rest ∧ t.kind = kind := by
  simp [expect, token_eq_done_iff]

theorem identifier_eq_done_iff {name : String} :
    identifier cause tokens = .done name rest ↔
      ∃ t, tokens = t :: rest ∧ t.kind = .identifier ∧ t.lexeme = name := by
  simp [identifier, token_eq_done_iff]

/-- With any tokens behind: this is how a word of the grammar is read in front of more text. -/
theorem expect_of_kind {t : Token} (h : t.kind = kind) :
    expect cause kind (t :: rest) = .done () rest :=
  expect_eq_done_iff.mpr ⟨t, rfl, h⟩

theorem identifier_of_kind {t : Token} (h : t.kind = .identifier) :
    identifier cause (t :: rest) = .done t.lexeme rest :=
  identifier_eq_done_iff.mpr ⟨t, rfl, h, rfl⟩

theorem typeName_eq_done_iff {type : TypeName} :
    typeName cause tokens = .done type rest ↔ ∃ t, tokens = t :: rest ∧ t.kind = type.kind := by
  simp [typeName, token_eq_done_iff, TypeName.ofKind?_eq_some_iff]

theorem typeName_of_kind {t : Token} {type : TypeName} (h : t.kind = type.kind) :
    typeName cause (t :: rest) = .done type rest :=
  typeName_eq_done_iff.mpr ⟨t, rfl, h⟩

/-- A closing token adds nothing to the value in front of it. -/
theorem close_eq_done_iff {value result : α} :
    close cause kind value tokens = .done result rest ↔
      (∃ t, tokens = t :: rest ∧ t.kind = kind) ∧ value = result := by
  unfold close
  simp only [bind_eq_done_iff, expect_eq_done_iff, pure_eq_done_iff]
  constructor
  · intro h
    obtain ⟨_, mid, ⟨t, rfl, ht⟩, rfl, rfl⟩ := h
    exact ⟨⟨t, rfl, ht⟩, rfl⟩
  · intro h
    obtain ⟨⟨t, rfl, ht⟩, rfl⟩ := h
    exact ⟨(), rest, ⟨t, rfl, ht⟩, rfl, rfl⟩

/-- The bound is part of reading: a numeral that is too large is of the kind that is wanted here and
is not read. -/
theorem arraySize_eq_done_iff {size : Nat} :
    arraySize tokens = .done size rest ↔
      ∃ t, tokens = t :: rest ∧ t.kind = .intLiteral ∧
        Numeral.Unsigned t.lexeme.toList size ∧ size < 2 ^ 64 := by
  constructor
  · intro h
    unfold arraySize at h
    split at h
    · cases h
    next t more =>
      split at h
      · cases h
      next kind =>
        split at h
        · next n read =>
          cases h
          exact ⟨t, rfl, Decidable.not_not.mp kind, Numeral.size?_eq_some_iff.mp read⟩
        · cases h
  · intro h
    obtain ⟨t, rfl, kind, written⟩ := h
    simp [arraySize, kind, Numeral.size?_eq_some_iff.mpr written]

theorem arraySize_of_kind {t : Token} {size : Nat} (kind : t.kind = .intLiteral)
    (text : Numeral.Unsigned t.lexeme.toList size) (bound : size < 2 ^ 64) :
    arraySize (t :: rest) = .done size rest :=
  arraySize_eq_done_iff.mpr ⟨t, rfl, kind, text, bound⟩

end Reader

end Quill
