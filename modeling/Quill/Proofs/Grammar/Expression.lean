import Quill.Proofs.Grammar.Reader
import Quill.Proofs.Grammar.Word

/-!
The readers of expressions and the grammar. What a reader takes off the front of a token list is a
word of the grammar with the tree that it gives (`expression_word`), and every word is read in front
of tokens that do not carry it on (`ExpressionWord.read`).
-/
namespace Quill

namespace Reader

variable {α : Type}

/-- An operand that opens with a bracket is an array. -/
theorem operand_of_open {t : Token} (opening : t.kind = .bracketOpen) (more : List Token) :
    operand (t :: more) = arrayLiteral (t :: more) := by
  rw [operand_eq_cons]
  simp [arrayLiteral, token, literal?, opening]
  rfl

/-- The other outcomes, an error and no literal at all, have no word. -/
theorem literal?_eq_ok_iff {t : Token} {value : Literal} :
    literal? t = some (.ok value) ↔ LiteralWord t value := by
  constructor
  · intro h
    unfold literal? at h
    split at h
    · next kind =>
      split at h
      · next n read =>
        cases h
        obtain ⟨text, lower, upper⟩ := Numeral.integer?_eq_some_iff.mp read
        exact .integer kind text lower upper
      · cases h
    · next kind =>
      split at h
      · next x read => cases h; exact .float kind read
      · cases h
    · next kind => cases h; exact .string kind
    · next kind => cases h; exact .trueWord kind
    · next kind => cases h; exact .falseWord kind
    · cases h
  · intro h
    cases h with
    | integer kind text lower upper =>
      simp [literal?, kind, Numeral.integer?_eq_some_iff.mpr ⟨text, lower, upper⟩]
    | float kind finite => simp [literal?, kind, finite]
    | string kind => simp [literal?, kind]
    | trueWord kind => simp [literal?, kind]
    | falseWord kind => simp [literal?, kind]

/-- A way to show something of all readings of expressions. The readers call each other on fewer
tokens, or on the same ones in the order operand, expression, elements. -/
theorem reading_induction (onOperand onExpression onSome onElements : List Token → Prop)
    (operand : ∀ tokens,
      (∀ fewer : List Token, fewer.length < tokens.length →
        onExpression fewer ∧ onElements fewer) → onOperand tokens)
    (expression : ∀ tokens, onOperand tokens →
      (∀ fewer : List Token, fewer.length < tokens.length → onExpression fewer) →
      onExpression tokens)
    (someElements : ∀ tokens, onExpression tokens →
      (∀ fewer : List Token, fewer.length < tokens.length → onSome fewer) → onSome tokens)
    (elements : ∀ tokens, onSome tokens → onElements tokens) (tokens : List Token) :
    onOperand tokens ∧ onExpression tokens ∧ onSome tokens ∧ onElements tokens := by
  induction size : tokens.length using Nat.strongRecOn generalizing tokens with
  | ind n ih =>
    subst size
    have hoperand := operand tokens fun fewer h =>
      have at_fewer := ih fewer.length h fewer rfl
      ⟨at_fewer.2.1, at_fewer.2.2.2⟩
    have hexpression := expression tokens hoperand fun fewer h => (ih fewer.length h fewer rfl).2.1
    have hsome := someElements tokens hexpression fun fewer h => (ih fewer.length h fewer rfl).2.2.1
    exact ⟨hoperand, hexpression, hsome, elements tokens hsome⟩

/-- All that the reader takes off the front of `tokens` is a word. -/
def GivesWords (reader : Reader α) (Word : List Token → α → Prop) (tokens : List Token) : Prop :=
  ∀ value rest, reader tokens = .done value rest → ∃ word, tokens = word ++ rest ∧ Word word value

/-- Elements with the closing bracket after them. -/
def ClosedElements (word : List Token) (es : List Expr) : Prop :=
  ∃ inner last, word = inner ++ [last] ∧ ElementsWord inner es ∧ last.kind = .bracketClose

/-- What makes an array after an opening bracket. -/
def ArrayTail (word : List Token) (es : List Expr) : Prop :=
  ∀ first : Token, first.kind = .bracketOpen → ArrayWord (first :: word) (.array es first.location)

variable {tokens : List Token}

/-- What the readers call each other on is shorter, so each step assumes the others there. -/
private theorem operand_word_step
    (ih : ∀ fewer : List Token, fewer.length < tokens.length →
      GivesWords expression ExpressionWord fewer ∧ GivesWords elements ArrayTail fewer) :
    GivesWords operand OperandWord tokens := by
  intro e rest h
  cases tokens with
  | nil => rw [operand_nil] at h; cases h
  | cons t more =>
    rw [operand_eq_cons] at h
    split at h
    · next value literal =>
      cases h
      exact ⟨[t], rfl, .literal (literal?_eq_ok_iff.mp literal)⟩
    · cases h
    split at h
    · next kind =>
      cases h
      exact ⟨[t], rfl, .identifier kind⟩
    split at h
    · next opening =>
      obtain ⟨inner, mid, read, closed⟩ := Outcome.andThen_eq_done_iff.mp h
      obtain ⟨⟨last, rfl, closing⟩, rfl⟩ := close_eq_done_iff.mp closed
      obtain ⟨word, rfl, hword⟩ := (ih more (by simp)).1 _ _ read
      exact ⟨t :: (word ++ [last]), by simp, .parens opening hword closing⟩
    split at h
    · next opening =>
      obtain ⟨es, mid, read, made⟩ := Outcome.andThen_eq_done_iff.mp h
      cases made
      obtain ⟨word, rfl, hword⟩ := (ih more (by simp)).2 _ _ read
      exact ⟨t :: word, rfl, .array (hword t opening)⟩
    · cases h

private theorem expression_word_step (hoperand : GivesWords operand OperandWord tokens)
    (ih : ∀ fewer : List Token, fewer.length < tokens.length →
      GivesWords expression ExpressionWord fewer) :
    GivesWords expression ExpressionWord tokens := by
  intro e rest h
  rw [expression_eq] at h
  obtain ⟨left, mid, read, after⟩ := Outcome.andThen_eq_done_iff.mp h
  obtain ⟨word, rfl, hleft⟩ := hoperand _ _ read
  unfold afterOperand at after
  split at after
  · cases after
    exact ⟨word, rfl, .operand hleft⟩
  next t more =>
    split at after
    · cases after
      exact ⟨word, rfl, .operand hleft⟩
    next operator kind =>
      obtain ⟨right, last, read, made⟩ := Outcome.andThen_eq_done_iff.mp after
      cases made
      obtain ⟨others, rfl, hright⟩ := ih more (by simp; omega) _ _ read
      exact ⟨word ++ t :: others, by simp,
        .binary hleft (Operator.ofKind?_eq_some_iff.mp kind) hright⟩

/-- The closing bracket is read with the last element, so it is part of what is said here. -/
private theorem someElements_word_step (hexpression : GivesWords expression ExpressionWord tokens)
    (ih : ∀ fewer : List Token, fewer.length < tokens.length →
      GivesWords someElements ClosedElements fewer) :
    GivesWords someElements ClosedElements tokens := by
  intro es rest h
  rw [someElements_eq] at h
  obtain ⟨first, mid, read, after⟩ := Outcome.andThen_eq_done_iff.mp h
  obtain ⟨word, rfl, hfirst⟩ := hexpression _ _ read
  unfold afterElement at after
  split at after
  · cases after
  next t more =>
    split at after
    · next comma =>
      obtain ⟨others, left, read, made⟩ := Outcome.andThen_eq_done_iff.mp after
      cases made
      obtain ⟨_, rfl, inner, last, rfl, hothers, closing⟩ := ih more (by simp; omega) _ _ read
      exact ⟨word ++ t :: inner ++ [last], by simp,
        word ++ t :: inner, last, rfl, .more hfirst comma hothers, closing⟩
    split at after
    · next closing =>
      cases after
      exact ⟨word ++ [t], by simp, word, t, rfl, .one hfirst, closing⟩
    · cases after

private theorem elements_word_step (hsome : GivesWords someElements ClosedElements tokens) :
    GivesWords elements ArrayTail tokens := by
  intro es rest h
  rw [elements_eq] at h
  split at h
  · cases h
  next t more =>
    split at h
    · next closing =>
      cases h
      exact ⟨[t], rfl, fun first opening => .empty opening closing⟩
    · obtain ⟨_, same, inner, last, rfl, hinner, closing⟩ := hsome _ _ h
      exact ⟨inner ++ [last], same, fun first opening => .some opening hinner closing⟩

/-- All four readers together, by the induction of their recursion. -/
private theorem readings_word (tokens : List Token) :
    GivesWords operand OperandWord tokens ∧ GivesWords expression ExpressionWord tokens ∧
      GivesWords someElements ClosedElements tokens ∧ GivesWords elements ArrayTail tokens :=
  reading_induction _ _ _ _ (fun _ => operand_word_step) (fun _ => expression_word_step)
    (fun _ => someElements_word_step) (fun _ => elements_word_step) tokens

theorem operand_word (tokens : List Token) : GivesWords operand OperandWord tokens :=
  (readings_word tokens).1

theorem expression_word (tokens : List Token) : GivesWords expression ExpressionWord tokens :=
  (readings_word tokens).2.1

theorem elements_word (tokens : List Token) : GivesWords elements ArrayTail tokens :=
  (readings_word tokens).2.2.2

/-- What may follow an expression: an operator would carry it on. -/
def Stops (rest : List Token) : Prop :=
  ∀ t ∈ rest.head?, ∀ operator : Operator, t.kind ≠ operator.kind

/-- In front of anything but an operator the left operand is the whole expression. -/
theorem afterOperand_of_stops {rest : List Token} (stops : Stops rest) (left : Expr) :
    afterOperand left rest = .done left rest := by
  cases rest with
  | nil => rfl
  | cons t more =>
    cases kind : Operator.ofKind? t.kind with
    | none => simp [afterOperand, kind]
    | some operator => exact absurd (Operator.ofKind?_eq_some_iff.mp kind) (stops t rfl operator)

theorem stops_cons {t : Token} {more : List Token} (h : Operator.ofKind? t.kind = none) :
    Stops (t :: more) := by
  intro first member operator same
  cases member
  rw [Operator.ofKind?_eq_some_iff.mpr same] at h
  cases h

/-- No expression starts with a closing bracket, so an array that is not empty is told by its first
token. -/
theorem elements_of_someElements {es : List Expr} {rest : List Token}
    (h : someElements tokens = .done es rest) : elements tokens = .done es rest := by
  have read := h
  rw [someElements_eq] at read
  obtain ⟨first, mid, read, -⟩ := Outcome.andThen_eq_done_iff.mp read
  rw [expression_eq] at read
  obtain ⟨left, mid, read, -⟩ := Outcome.andThen_eq_done_iff.mp read
  rw [elements_eq]
  cases tokens with
  | nil =>
    rw [operand_nil] at read
    cases read
  | cons t more =>
    have other : t.kind ≠ .bracketClose := by
      intro kind
      rw [operand_eq_cons] at read
      simp [literal?, kind] at read
    simp only [if_neg other]
    exact h

end Reader

mutual

/-- An operand ends by itself, so anything may follow it. -/
theorem OperandWord.read {word : List Token} {e : Expr} :
    OperandWord word e → ∀ rest, Reader.operand (word ++ rest) = .done e rest
  | .literal h, rest => by
    simp [Reader.operand_eq_cons, Reader.literal?_eq_ok_iff.mpr h]
  | .identifier kind, rest => by
    simp [Reader.operand_eq_cons, Reader.literal?, kind]
  | .parens opening inner closing, rest => by
    simp only [List.cons_append, List.append_assoc, List.nil_append, Reader.operand_eq_cons,
      Reader.literal?, opening, reduceCtorEq, if_false, if_true]
    refine Outcome.andThen_eq_done_iff.mpr
      ⟨_, _, inner.read _ (Reader.stops_cons (by rw [closing]; rfl)), ?_⟩
    exact Reader.close_eq_done_iff.mpr ⟨⟨_, rfl, closing⟩, rfl⟩
  | .array h, rest => by
    obtain ⟨first, tail, es, rfl, rfl, opening, read⟩ := h.read
    simp [Reader.operand_eq_cons, Reader.literal?, opening, read]

/-- An expression goes on as long as there are operators, so it is read as a whole only where it
stops. -/
theorem ExpressionWord.read {word : List Token} {e : Expr} :
    ExpressionWord word e → ∀ rest, Reader.Stops rest →
      Reader.expression (word ++ rest) = .done e rest
  | .operand h, rest, stops => by
    rw [Reader.expression_eq, h.read]
    exact Reader.afterOperand_of_stops stops _
  | .binary hleft kind hright, rest, stops => by
    rw [List.append_assoc, Reader.expression_eq]
    refine Outcome.andThen_eq_done_iff.mpr ⟨_, _, hleft.read _, ?_⟩
    simp [Reader.afterOperand, Operator.ofKind?_eq_some_iff.mpr kind, hright.read rest stops]

theorem ArrayWord.read {word : List Token} {e : Expr} :
    ArrayWord word e → ∃ first tail es, word = first :: tail ∧ e = .array es first.location ∧
      first.kind = .bracketOpen ∧ ∀ rest, Reader.elements (tail ++ rest) = .done es rest
  | @ArrayWord.empty first last opening closing => by
    refine ⟨first, [last], [], rfl, rfl, opening, fun rest => ?_⟩
    simp [Reader.elements_eq, closing]
  | @ArrayWord.some first last word es opening inner closing => by
    refine ⟨first, word ++ [last], es, rfl, rfl, opening, fun rest => ?_⟩
    rw [List.append_assoc]
    exact Reader.elements_of_someElements (inner.read last rest closing)

/-- The bracket behind the elements is what stops the last one. -/
theorem ElementsWord.read {word : List Token} {es : List Expr} :
    ElementsWord word es → ∀ (last : Token) rest, last.kind = .bracketClose →
      Reader.someElements (word ++ last :: rest) = .done es rest
  | .one h, last, rest, closing => by
    rw [Reader.someElements_eq]
    refine Outcome.andThen_eq_done_iff.mpr
      ⟨_, _, h.read _ (Reader.stops_cons (by rw [closing]; rfl)), ?_⟩
    simp [Reader.afterElement, closing]
  | .more hfirst kind hothers, last, rest, closing => by
    rw [List.append_assoc, Reader.someElements_eq]
    refine Outcome.andThen_eq_done_iff.mpr
      ⟨_, _, hfirst.read _ (Reader.stops_cons (by rw [kind]; rfl)), ?_⟩
    simp [Reader.afterElement, kind, hothers.read last rest closing]

end

end Quill
