import Quill.Proofs.Grammar.Locality
import Quill.Proofs.Grammar.Statement
import Quill.Proofs.Report.Messages

/-!
Checks that are made twice. A reader that is called for its opening token, which its caller has
looked at already, may look at it again and have an error ready in case that it finds another one.
The readers of this module make all these checks; a check that fails stops the reading, so that its
error cannot be taken for one of the grammar. None does: with the checks and without them reading
gives the same on every token list (`Guarded.statement_eq`).
-/
namespace Quill

/-- A check of a token that the caller has looked at already. -/
inductive Guard where
  | newWord
  | blWord
  | stdoutWord
  | arrayOpening
  /-- The bracket or brace that makes a declaration one of an array. -/
  | arraySyntax
  deriving DecidableEq, Repr

/-- What the error of a check would say. -/
def Guard.wording : Guard → String
  | newWord => "Expected 'new' keyword"
  | blWord => "Expected 'bl' keyword"
  | stdoutWord => "Expected 'stdout' keyword"
  | arrayOpening => "Expected '[' for array literal"
  | arraySyntax => "Expected array syntax after variable name"

/-- No error of the grammar begins like one of a check. -/
theorem Guard.diverge_message (guard : Guard) (cause : SyntaxCause) :
    Text.Diverge guard.wording cause.message := by
  cases guard <;> cases cause <;> exact .ofList (by decide)

/-- A reading with checks: what it gives, or the check that fails. -/
abbrev Checking (α : Type) := Except Guard α

/-- Takes a phrase off the front of a token list, with checks. -/
def Guarded (α : Type) := List Token → Checking (Outcome α)

namespace Guarded

/-- A reader without checks. -/
def ofReader (reader : Reader α) : Guarded α := fun tokens => .ok (reader tokens)

def andThen (first : Guarded α) (next : α → Guarded β) : Guarded β := fun tokens =>
  match first tokens with
  | .ok (.done value rest) => next value rest
  | .ok (.failed cause rest) => .ok (.failed cause rest)
  | .error guard => .error guard

instance : Monad Guarded where
  pure value := ofReader (pure value)
  bind := andThen

instance : MonadLift Reader Guarded := ⟨ofReader⟩

/-- Passes a token of a kind that the caller has seen. -/
def check (guard : Guard) (kind : TokenKind) : Guarded Unit
  | [] => .error guard
  | t :: rest => if t.kind = kind then .ok (.done () rest) else .error guard

/-- The check of a case that the caller has left out. -/
def never (guard : Guard) : Guarded α := fun _ => .error guard

end Guarded

namespace Guarded

def chain (first : Checking (Advance α tokens))
    (next : α → (rest : List Token) → rest.length < tokens.length →
      Checking { o : Outcome β // o.Within rest }) : Checking (Advance β tokens) :=
  match first with
  | .error guard => .error guard
  | .ok ⟨.failed cause rest, h⟩ => .ok ⟨.failed cause rest, h⟩
  | .ok ⟨.done value rest, h⟩ =>
    (next value rest h.fewer).map fun later => ⟨later.val, h.onward later.property⟩

/-- Where no check fails, reading on is reading on without checks. -/
theorem chain_ok {first : Advance α tokens}
    {next : α → (rest : List Token) → rest.length < tokens.length →
      Checking { o : Outcome β // o.Within rest }}
    {plain : α → (rest : List Token) → rest.length < tokens.length →
      { o : Outcome β // o.Within rest }}
    (h : ∀ value rest fewer, next value rest fewer = .ok (plain value rest fewer)) :
    chain (.ok first) next = .ok (first.andThen plain) := by
  obtain ⟨outcome, advances⟩ := first
  cases outcome with
  | done value rest =>
    rw [chain, h]
    rfl
  | failed => rfl

-- As without checks, but for arrays: each reader calls the others on fewer tokens, or on the same
-- ones in the order of their measures.
mutual

def expressionStep (tokens : List Token) : Checking (Advance Expr tokens) :=
  chain (operandStep tokens) fun left rest fewer =>
    match rest, fewer with
    | [], _ => .ok ⟨.done left [], List.suffix_refl _⟩
    | t :: rest, _ =>
      match Operator.ofKind? t.kind with
      | none => .ok ⟨.done left (t :: rest), List.suffix_refl _⟩
      | some operator =>
        (chain (expressionStep rest) fun right rest _ =>
          .ok ⟨.done (.binary left operator right t.location) rest, List.suffix_refl _⟩).map
            Advance.onward
termination_by 5 * tokens.length + 2
decreasing_by
  · omega
  · next fewer => simp only [List.length_cons] at fewer; omega

def operandStep (tokens : List Token) : Checking (Advance Expr tokens) :=
  match tokens with
  | [] => .ok (.failed .expression)
  | t :: rest =>
    match Reader.literal? t with
    | some (.ok value) => .ok (.one (.literal value t.location))
    | some (.error cause) => .ok (.failed cause)
    | none =>
      if t.kind = .identifier then .ok (.one (.identifier t.lexeme t.location))
      else if t.kind = .parenOpen then
        (chain (expressionStep rest) fun inner rest _ =>
          .ok ⟨Reader.close .closeAfterExpression .parenClose inner rest,
            Reader.sound_close _ _ _ rest⟩).map Advance.afterToken
      else if t.kind = .bracketOpen then arrayStep (t :: rest)
      else .ok (.failed .expression)
termination_by 5 * tokens.length + 1
decreasing_by all_goals simp only [List.length_cons]; omega

/-- Reads an array, and checks that it opens like one. -/
def arrayStep (tokens : List Token) : Checking (Advance Expr tokens) :=
  match tokens with
  | [] => .error .arrayOpening
  | t :: rest =>
    if t.kind = .bracketOpen then
      (chain (elementsStep rest) fun elements rest _ =>
        .ok ⟨.done (.array elements t.location) rest, List.suffix_refl _⟩).map Advance.afterToken
    else .error .arrayOpening
termination_by 5 * tokens.length
decreasing_by all_goals simp only [List.length_cons]; omega

def elementsStep (tokens : List Token) : Checking (Advance (List Expr) tokens) :=
  match tokens with
  | [] => .ok (.failed .expression)
  | t :: rest =>
    if t.kind = .bracketClose then .ok (.one [])
    else someElementsStep (t :: rest)
termination_by 5 * tokens.length + 4
decreasing_by all_goals simp only [List.length_cons]; omega

def someElementsStep (tokens : List Token) : Checking (Advance (List Expr) tokens) :=
  chain (expressionStep tokens) fun first rest fewer =>
    match rest, fewer with
    | [], _ => .ok ⟨.failed .closeAfterElements [], List.suffix_refl _⟩
    | t :: rest, _ =>
      if t.kind = .comma then
        (chain (someElementsStep rest) fun more rest _ =>
          .ok ⟨.done (first :: more) rest, List.suffix_refl _⟩).map Advance.onward
      else if t.kind = .bracketClose then .ok ⟨.done [first] rest, List.suffix_cons ..⟩
      else .ok ⟨.failed .closeAfterElements (t :: rest), List.suffix_refl _⟩
termination_by 5 * tokens.length + 3
decreasing_by
  · omega
  · next fewer _ => simp only [List.length_cons] at fewer; omega

end

mutual

theorem expressionStep_eq (tokens : List Token) :
    expressionStep tokens = .ok (Reader.expressionStep tokens) := by
  rw [expressionStep, operandStep_eq tokens, Reader.expressionStep]
  refine chain_ok fun left rest fewer => ?_
  cases rest with
  | nil => rfl
  | cons t rest =>
    have shorter : rest.length < tokens.length := Nat.lt_of_succ_lt fewer
    dsimp only
    cases Operator.ofKind? t.kind with
    | none => rfl
    | some operator =>
      dsimp only
      rw [expressionStep_eq rest, chain_ok fun _ _ _ => rfl]
      rfl
termination_by 5 * tokens.length + 2
decreasing_by all_goals omega

theorem operandStep_eq (tokens : List Token) :
    operandStep tokens = .ok (Reader.operandStep tokens) := by
  cases tokens with
  | nil =>
    rw [operandStep, Reader.operandStep]
  | cons t rest =>
    rw [operandStep, Reader.operandStep]
    cases Reader.literal? t with
    | some literal => cases literal <;> rfl
    | none =>
      dsimp only
      split
      · rfl
      split
      · rw [expressionStep_eq rest, chain_ok fun _ _ _ => rfl]
        rfl
      split
      · next opening =>
        -- The one call of `arrayStep` for an operand, with the bracket in front.
        rw [arrayStep, if_pos opening, elementsStep_eq rest, chain_ok fun _ _ _ => rfl]
        rfl
      · rfl
termination_by 5 * tokens.length + 1
decreasing_by all_goals simp only [List.length_cons]; omega

theorem elementsStep_eq (tokens : List Token) :
    elementsStep tokens = .ok (Reader.elementsStep tokens) := by
  rw [elementsStep.eq_def, Reader.elementsStep.eq_def]
  cases tokens with
  | nil => rfl
  | cons t rest =>
    dsimp only
    split
    · rfl
    · exact someElementsStep_eq (t :: rest)
termination_by 5 * tokens.length + 4
decreasing_by all_goals simp only [List.length_cons]; omega

theorem someElementsStep_eq (tokens : List Token) :
    someElementsStep tokens = .ok (Reader.someElementsStep tokens) := by
  rw [someElementsStep, expressionStep_eq tokens, Reader.someElementsStep]
  refine chain_ok fun first rest fewer => ?_
  cases rest with
  | nil => rfl
  | cons t rest =>
    have shorter : rest.length < tokens.length := Nat.lt_of_succ_lt fewer
    dsimp only
    split
    · rw [someElementsStep_eq rest, chain_ok fun _ _ _ => rfl]
      rfl
    · split <;> rfl
termination_by 5 * tokens.length + 3
decreasing_by all_goals omega

end

def expression : Guarded Expr := fun tokens => (expressionStep tokens).map Subtype.val

def arrayLiteral : Guarded Expr := fun tokens => (arrayStep tokens).map Subtype.val

/-- Reads what an array starts with, which must be an array. -/
def initializer : Guarded Expr := do
  let front ← Reader.front?
  if front = some .bracketOpen then arrayLiteral else Reader.fail .arrayLiteral

def valuesDeclaration (name : String) (location : Location) : Guarded Stmt := do
  Reader.expect .closeAfterOpen .bracketClose
  Reader.expect .valueAfterArray .assign
  let value ← initializer
  pure (.array name (.values value) location)

def arrayDeclaration (location : Location) : Guarded Stmt := do
  check .newWord .new
  let name ← Reader.identifier .nameAfterNew
  let front ← Reader.front?
  if front = some .bracketOpen then
    Reader.skip
    valuesDeclaration name location
  else if front = some .braceOpen then
    Reader.skip
    Reader.sizedDeclaration name location
  else never .arraySyntax

def scalarDeclaration (location : Location) : Guarded Stmt := do
  check .newWord .new
  let name ← Reader.identifier .nameAfterNew
  let type ← Reader.typeName .typeAfterName
  Reader.expect .valueAfterType .assign
  let value ← expression
  pure (.scalar name type value location)

def flagDeclaration (location : Location) : Guarded Stmt := do
  check .blWord .bl
  let name ← Reader.identifier .nameAfterBl
  Reader.expect .valueAfterName .assign
  let value ← expression
  pure (.scalar name .bool value location)

def output (location : Location) : Guarded Stmt := do
  check .stdoutWord .stdout
  Reader.output location

/-- A name follows the front token, and a bracket or a brace that name. -/
def opensArray (tokens : List Token) : Bool :=
  match tokens.tail with
  | [] => false
  | name :: more =>
    name.kind = .identifier ∧ (more.head?.map (·.kind) = some .bracketOpen ∨
      more.head?.map (·.kind) = some .braceOpen)

/-- Reads a statement. What follows its first token tells an array from a scalar beforehand, and the
readers of both start with the first token again. -/
def statement : Guarded Stmt
  | [] => .ok (.failed .statement [])
  | t :: rest =>
    match t.kind with
    | .new =>
      if opensArray (t :: rest) then arrayDeclaration t.location (t :: rest)
      else scalarDeclaration t.location (t :: rest)
    | .bl => flagDeclaration t.location (t :: rest)
    | .stdout => output t.location (t :: rest)
    | _ => .ok (.failed .statement (t :: rest))

variable {t : Token} {rest : List Token} {location : Location} {guard : Guard} {kind : TokenKind}

theorem expression_eq (tokens : List Token) :
    expression tokens = .ok (Reader.expression tokens) := by
  rw [expression, expressionStep_eq]
  rfl

theorem arrayLiteral_eq (opening : t.kind = .bracketOpen) :
    arrayLiteral (t :: rest) = .ok (Reader.arrayLiteral (t :: rest)) := by
  have same : arrayStep (t :: rest) = operandStep (t :: rest) := by
    rw [operandStep]
    simp [Reader.literal?, opening]
  rw [arrayLiteral, same, operandStep_eq, ← Reader.operand_of_open opening]
  rfl

/-- A check of a token of the right kind passes it. -/
theorem check_bind (h : t.kind = kind) (next : Unit → Guarded α) :
    (check guard kind >>= next) (t :: rest) = next () rest := by
  show andThen (check guard kind) next (t :: rest) = next () rest
  simp [andThen, check, h]

/-- Readings one after the other are those without checks if each of them is. -/
theorem bind_eq {tokens : List Token} {first : Guarded α} {plain : Reader α}
    {next : α → Guarded β} {on : α → Reader β} (hfirst : first tokens = .ok (plain tokens))
    (hnext : ∀ value rest, plain tokens = .done value rest →
      next value rest = .ok (on value rest)) :
    (first >>= next) tokens = .ok ((plain >>= on) tokens) := by
  show andThen first next tokens = .ok ((plain tokens).andThen on)
  rw [andThen, hfirst]
  cases read : plain tokens with
  | done value rest => exact hnext value rest read
  | failed => rfl

theorem initializer_eq (tokens : List Token) :
    initializer tokens = .ok (Reader.arrayLiteral tokens) := by
  show (if tokens.head?.map (·.kind) = some .bracketOpen then arrayLiteral
    else ofReader (Reader.fail .arrayLiteral)) tokens = _
  split
  · next front =>
    obtain ⟨first, more, rfl, opening⟩ := Reader.exists_cons_of_front front
    exact arrayLiteral_eq opening
  · next other =>
    cases tokens with
    | nil => rfl
    | cons first more =>
      have notOpening : first.kind ≠ .bracketOpen := fun kind => other (congrArg some kind)
      simp [ofReader, Reader.fail, Reader.arrayLiteral, Reader.token, notOpening, Outcome.andThen]

theorem valuesDeclaration_eq (name : String) (tokens : List Token) :
    valuesDeclaration name location tokens =
      .ok (Reader.valuesDeclaration name location tokens) :=
  bind_eq rfl fun _ _ _ => bind_eq rfl fun _ _ _ => bind_eq (initializer_eq _) fun _ _ _ => rfl

theorem scalarDeclaration_eq (hnew : t.kind = .new) (other : opensArray (t :: rest) = false) :
    scalarDeclaration location (t :: rest) = .ok (Reader.declaration location rest) := by
  rw [scalarDeclaration, check_bind hnew]
  refine bind_eq rfl fun name mid read => ?_
  obtain ⟨nameToken, rfl, hname, -⟩ := Reader.identifier_eq_done_iff.mp read
  obtain ⟨noBracket, noBrace⟩ : mid.head?.map (·.kind) ≠ some .bracketOpen ∧
      mid.head?.map (·.kind) ≠ some .braceOpen := by
    simpa [opensArray, hname] using other
  show _ = Except.ok ((if mid.head?.map Token.kind = some .bracketOpen then _
    else if mid.head?.map Token.kind = some .braceOpen then _ else _ : Reader Stmt) mid)
  rw [if_neg noBracket, if_neg noBrace]
  exact bind_eq rfl fun _ _ _ => bind_eq rfl fun _ _ _ => bind_eq (expression_eq _) fun _ _ _ => rfl

theorem arrayDeclaration_eq (hnew : t.kind = .new) (opens : opensArray (t :: rest) = true) :
    arrayDeclaration location (t :: rest) = .ok (Reader.declaration location rest) := by
  rw [arrayDeclaration, check_bind hnew]
  refine bind_eq rfl fun name mid read => bind_eq rfl fun front _ same => ?_
  cases same
  obtain ⟨nameToken, rfl, hname, -⟩ := Reader.identifier_eq_done_iff.mp read
  by_cases bracket : mid.head?.map (·.kind) = some .bracketOpen
  · rw [if_pos bracket, if_pos bracket]
    exact bind_eq rfl fun _ _ _ => valuesDeclaration_eq ..
  by_cases brace : mid.head?.map (·.kind) = some .braceOpen
  · rw [if_neg bracket, if_neg bracket, if_pos brace, if_pos brace]
    exact bind_eq rfl fun _ _ _ => rfl
  · simp [opensArray, bracket, brace] at opens

theorem flagDeclaration_eq (hbl : t.kind = .bl) :
    flagDeclaration location (t :: rest) = .ok (Reader.flagDeclaration location rest) := by
  rw [flagDeclaration, check_bind hbl]
  exact bind_eq rfl fun _ _ _ => bind_eq rfl fun _ _ _ => bind_eq (expression_eq _) fun _ _ _ => rfl

/-- No check of a statement fails. -/
theorem statement_eq (tokens : List Token) : statement tokens = .ok (Reader.statement tokens) := by
  cases tokens with
  | nil => rfl
  | cons t rest =>
    by_cases hnew : t.kind = .new
    · have plain : Reader.statement (t :: rest) = Reader.declaration t.location rest := by
        simp [Reader.statement, hnew]
      rw [plain]
      simp only [statement, hnew]
      split
      · next opens => exact arrayDeclaration_eq hnew opens
      · next other => exact scalarDeclaration_eq hnew (Bool.eq_false_iff.mpr other)
    by_cases hbl : t.kind = .bl
    · have plain : Reader.statement (t :: rest) = Reader.flagDeclaration t.location rest := by
        simp [Reader.statement, hbl]
      rw [plain]
      simp only [statement, hbl]
      exact flagDeclaration_eq hbl
    by_cases hstdout : t.kind = .stdout
    · have plain : Reader.statement (t :: rest) = Reader.output t.location rest := by
        simp [Reader.statement, hstdout]
      rw [plain]
      simp only [statement, hstdout]
      exact check_bind hstdout _
    · rw [Reader.statement_of_other hnew hbl hstdout]
      unfold statement
      dsimp only
      split
      · next kind => exact absurd kind hnew
      · next kind => exact absurd kind hbl
      · next kind => exact absurd kind hstdout
      · rfl

end Guarded

end Quill
