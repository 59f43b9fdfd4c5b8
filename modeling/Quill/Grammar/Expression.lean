import Quill.Grammar.Advance
import Quill.Tree.Basic

/-!
Reading expressions. An operand is a literal, a name, an expression in parentheses or an array; an
expression is an operand, or an operand, an operator and an expression. So a chain of operators
groups to the right whatever the operators are.

The readers call each other on fewer tokens, or on the same tokens in a fixed order, and each result
carries the proof that it has advanced. `expression`, `operand` and `elements` leave the proof out;
`expression_eq`, `operand_eq_cons`, `elements_eq` and `someElements_eq` are the grammar.
-/
namespace Quill.Reader

/-- The literal that a token writes, or what is wrong with it; nothing if it is no literal. -/
def literal? (t : Token) : Option (Except SyntaxCause Literal) :=
  match t.kind with
  | .intLiteral =>
    some (match Numeral.integer? t.lexeme.toList with
      | some n => .ok (.integer n)
      | none => .error .integerRange)
  | .floatLiteral =>
    some (match Binary32.read? t.lexeme.toList with
      | some x => .ok (.float x)
      | none => .error .floatRange)
  | .stringLiteral => some (.ok (.string t.lexeme))
  | .trueWord => some (.ok (.bool true))
  | .falseWord => some (.ok (.bool false))
  | _ => none

mutual

def expressionStep (tokens : List Token) : Advance Expr tokens :=
  (operandStep tokens).andThen fun left rest fewer =>
    match rest, fewer with
    | [], _ => ⟨.done left [], List.suffix_refl _⟩
    | t :: rest, _ =>
      match Operator.ofKind? t.kind with
      | none => ⟨.done left (t :: rest), List.suffix_refl _⟩
      | some operator =>
        ((expressionStep rest).andThen fun right rest _ =>
          ⟨.done (.binary left operator right t.location) rest, List.suffix_refl _⟩).onward
termination_by 4 * tokens.length + 1
decreasing_by
  · omega
  · next fewer => simp only [List.length_cons] at fewer; omega

def operandStep (tokens : List Token) : Advance Expr tokens :=
  match tokens with
  | [] => .failed .expression
  | t :: rest =>
    match literal? t with
    | some (.ok value) => .one (.literal value t.location)
    | some (.error cause) => .failed cause
    | none =>
      if t.kind = .identifier then .one (.identifier t.lexeme t.location)
      else if t.kind = .parenOpen then
        .afterToken ((expressionStep rest).andThen fun inner rest _ =>
          ⟨close .closeAfterExpression .parenClose inner rest, sound_close _ _ _ rest⟩)
      else if t.kind = .bracketOpen then
        .afterToken ((elementsStep rest).andThen fun elements rest _ =>
          ⟨.done (.array elements t.location) rest, List.suffix_refl _⟩)
      else .failed .expression
termination_by 4 * tokens.length
decreasing_by all_goals simp only [List.length_cons]; omega

def elementsStep (tokens : List Token) : Advance (List Expr) tokens :=
  match tokens with
  | [] => .failed .expression
  | t :: rest =>
    if t.kind = .bracketClose then .one []
    else someElementsStep (t :: rest)
termination_by 4 * tokens.length + 3
decreasing_by all_goals simp only [List.length_cons]; omega

def someElementsStep (tokens : List Token) : Advance (List Expr) tokens :=
  (expressionStep tokens).andThen fun first rest fewer =>
    match rest, fewer with
    | [], _ => ⟨.failed .closeAfterElements [], List.suffix_refl _⟩
    | t :: rest, _ =>
      if t.kind = .comma then
        ((someElementsStep rest).andThen fun more rest _ =>
          ⟨.done (first :: more) rest, List.suffix_refl _⟩).onward
      else if t.kind = .bracketClose then ⟨.done [first] rest, List.suffix_cons ..⟩
      else ⟨.failed .closeAfterElements (t :: rest), List.suffix_refl _⟩
termination_by 4 * tokens.length + 2
decreasing_by
  · omega
  · next fewer _ => simp only [List.length_cons] at fewer; omega

end

def expression : Reader Expr := fun tokens => (expressionStep tokens).val

def operand : Reader Expr := fun tokens => (operandStep tokens).val

/-- Reads the elements of an array after its opening bracket, and the closing bracket. -/
def elements : Reader (List Expr) := fun tokens => (elementsStep tokens).val

/-- Reads one or more elements with commas between them, and the closing bracket. -/
def someElements : Reader (List Expr) := fun tokens => (someElementsStep tokens).val

/-- What may follow a left operand: nothing, or an operator and an expression. -/
def afterOperand (left : Expr) : Reader Expr
  | [] => .done left []
  | t :: rest =>
    match Operator.ofKind? t.kind with
    | none => .done left (t :: rest)
    | some operator =>
      (expression rest).andThen fun right => .done (.binary left operator right t.location)

/-- What must follow an element: a comma and more elements, or the closing bracket. -/
def afterElement (first : Expr) : Reader (List Expr)
  | [] => .failed .closeAfterElements []
  | t :: rest =>
    if t.kind = .comma then (someElements rest).andThen fun more => .done (first :: more)
    else if t.kind = .bracketClose then .done [first] rest
    else .failed .closeAfterElements (t :: rest)

theorem expression_eq (tokens : List Token) :
    expression tokens = (operand tokens).andThen afterOperand := by
  unfold expression
  rw [expressionStep]
  refine Advance.val_andThen fun left rest fewer => ?_
  cases rest with
  | nil => rfl
  | cons t rest =>
    simp only [afterOperand]
    cases Operator.ofKind? t.kind with
    | none => rfl
    | some operator => exact Advance.val_andThen fun _ _ _ => rfl

theorem operand_eq_cons (t : Token) (rest : List Token) :
    operand (t :: rest) =
      match literal? t with
      | some (.ok value) => .done (.literal value t.location) rest
      | some (.error cause) => .failed cause (t :: rest)
      | none =>
        if t.kind = .identifier then .done (.identifier t.lexeme t.location) rest
        else if t.kind = .parenOpen then
          (expression rest).andThen (close .closeAfterExpression .parenClose)
        else if t.kind = .bracketOpen then
          (elements rest).andThen fun elements => .done (.array elements t.location)
        else .failed .expression (t :: rest) := by
  unfold operand
  rw [operandStep]
  split
  · rfl
  · rfl
  split
  · rfl
  split
  · exact (Advance.val_afterToken t _).trans (Advance.val_andThen fun _ _ _ => rfl)
  split
  · exact (Advance.val_afterToken t _).trans (Advance.val_andThen fun _ _ _ => rfl)
  · rfl

theorem operand_nil : operand [] = .failed .expression [] := by
  unfold operand
  rw [operandStep]
  rfl

theorem elements_eq (tokens : List Token) :
    elements tokens =
      match tokens with
      | [] => .failed .expression []
      | t :: rest =>
        if t.kind = .bracketClose then .done [] rest else someElements (t :: rest) := by
  unfold elements
  rw [elementsStep.eq_def]
  cases tokens with
  | nil => rfl
  | cons t rest =>
    dsimp only
    split <;> rfl

theorem someElements_eq (tokens : List Token) :
    someElements tokens = (expression tokens).andThen afterElement := by
  unfold someElements
  rw [someElementsStep]
  refine Advance.val_andThen fun first rest fewer => ?_
  cases rest with
  | nil => rfl
  | cons t rest =>
    simp only [afterElement]
    split
    · exact Advance.val_andThen fun _ _ _ => rfl
    · split <;> rfl

theorem expression_advances (tokens : List Token) : (expression tokens).Advances tokens :=
  (expressionStep tokens).property

theorem operand_advances (tokens : List Token) : (operand tokens).Advances tokens :=
  (operandStep tokens).property

theorem elements_advances (tokens : List Token) : (elements tokens).Advances tokens :=
  (elementsStep tokens).property

theorem sound_expression : Sound expression := fun tokens => (expression_advances tokens).within

theorem sound_elements : Sound elements := fun tokens => (elements_advances tokens).within

end Quill.Reader
