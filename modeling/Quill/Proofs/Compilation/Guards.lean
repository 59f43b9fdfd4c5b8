import Quill.Proofs.Compilation.Pointing
import Quill.Proofs.Grammar.Guards
import Quill.Proofs.Typing.Findings

/-!
Errors that cannot occur. Reading never comes to an error that its checks have ready, and it makes
arrays start with arrays only, so that the analysis has nothing to say against the start of one.
-/
namespace Quill

/-- The shape of the statements that are read: an array starts with an array, and an output writes
names. -/
def Stmt.Shaped : Stmt → Prop
  | scalar .. => True
  | array _ (.values value) _ => ∃ elements bracket, value = .array elements bracket
  | array _ (.sized ..) _ => True
  | output content _ => ∀ e ∈ content.expressions, ∃ name place, e = .identifier name place

theorem StatementWord.shaped {word : List Token} {stmt : Stmt} (h : StatementWord word stmt) :
    stmt.Shaped := by
  cases h with
  | scalar | flag | sized => exact True.intro
  | values _ _ _ _ _ hvalue =>
    cases hvalue with
    | empty => exact ⟨_, _, rfl⟩
    | some => exact ⟨_, _, rfl⟩
  | output => exact fun e member => Segment.isName_of_mem member

/-- Nothing is wrong with the start of an array that is an array. -/
theorem Stmt.Finds.cause_ne {symbols : SymbolTable} {stmt : Stmt} {errors : List SemanticError}
    (h : stmt.Finds symbols errors) (shaped : stmt.Shaped) :
    ∀ error ∈ errors, error.cause ≠ .initializerNotArray := by
  intro error member
  cases h with
  | redeclared taken rejection =>
    obtain rfl := List.mem_singleton.mp member
    obtain ⟨name, same | same⟩ := cause_of_rejection? rejection <;> simp [same]
  | inExpressions free =>
    obtain ⟨blames, blamed⟩ := (Expr.checkAll_contained symbols stmt.expressions).blamed
    obtain ⟨node, ofNode⟩ := blamed.exists_ofNode error member
    cases ofNode <;> simp
  | misfit free only quiet known misfit =>
    obtain rfl := List.mem_singleton.mp member
    cases misfit with
    | mismatch => simp
    | notArray other =>
      obtain ⟨elements, bracket, same⟩ := shaped
      exact absurd same (other elements bracket)

/-- What the analysis would say of an array that starts with something else. -/
def notArrayMessage : String := "Array initializer must be an array literal"

theorem LexicalCause.diverge_message (cause : LexicalCause) :
    Text.Diverge notArrayMessage cause.message := by
  cases cause with
  | unexpected | invalidEscape => exact .append (.append (.ofList (by decide)) _) _
  | unterminated => exact .ofList (by decide)

theorem SyntaxCause.diverge_message (cause : SyntaxCause) :
    Text.Diverge notArrayMessage cause.message := by
  cases cause <;> exact .ofList (by decide)

theorem SemanticCause.diverge_message {cause : SemanticCause}
    (other : cause ≠ .initializerNotArray) : Text.Diverge notArrayMessage cause.message := by
  -- The equations of `message` are long in coming, so it is unfolded.
  unfold message
  cases cause with
  | variableRedeclared | arrayRedeclared | undefined =>
    exact .append (.append (.ofList (by decide)) _) _
  | assignmentMismatch | arithmeticMismatch | comparisonMismatch =>
    exact .append (.append (.append (.ofList (by decide)) _) _) _
  | arithmeticOnString | mixedElements => exact .ofList (by decide)
  | initializerNotArray => exact absurd rfl other

/-- Nothing that a compilation records begins like the error about the start of an array. -/
theorem Compilation.diverge_message (file : Option String) (source : String) :
    ∀ d ∈ (ofSource file source).sink.records, Text.Diverge notArrayMessage d.message := by
  intro d member
  obtain ⟨error, -, same⟩ | ⟨error, -, same⟩ | ⟨error, found, same⟩ | ⟨site, -, same⟩ :=
    exists_finding file source d member
  all_goals rw [show d.message = d.unlabelled.message from rfl, same]
  · exact error.cause.diverge_message
  · rw [SyntaxError.message_diagnostic]
    exact SyntaxError.diverge_message error.cause.diverge_message
  · obtain ⟨stmt, among, reached, inStmt⟩ := Stmt.exists_check_of_mem_errors found
    obtain ⟨word, hword, -⟩ := Parse.exists_word _ stmt among
    have other := (stmt.check_finds reached).cause_ne hword.shaped error inStmt
    exact SemanticCause.diverge_message other
  · exact .append (.append (.ofList (by decide)) _) _

/-- The checks that reading makes of tokens it has seen never fail, and their errors do not occur;
what does occur has a hint and blames a token of the list. What is read is in shape, and so the
analysis never has to do with an array that starts with something else. -/
theorem Sink.parse_is_guarded :
    (∀ tokens, Guarded.statement tokens = .ok (Reader.statement tokens)) ∧
    (∀ (sink : Sink) (tokens : List Token),
      (∃ added, (sink.parse tokens).2.records = sink.records ++ added ∧ ∀ d ∈ added,
        d.suggestion ≠ "" ∧ ∀ guard : Guard, ¬guard.wording.toList <+: d.message.toList) ∧
      (∀ error ∈ (Parse.ofTokens tokens).errors, ∃ t ∈ tokens, error.blamed? = some t) ∧
      ∀ stmt ∈ (sink.parse tokens).1.statements, stmt.Shaped) ∧
    ∀ file source, ∀ d ∈ (Compilation.ofSource file source).sink.records,
      d.message ≠ notArrayMessage := by
  refine ⟨Guarded.statement_eq, fun sink tokens => ⟨⟨_, rfl, fun d member => ?_⟩, ?_, ?_⟩, ?_⟩
  · obtain ⟨_, among, rfl⟩ := List.mem_map.mp member
    obtain ⟨error, -, rfl⟩ := List.mem_map.mp among
    have hint : error.diagnostic.suggestion ≠ "" := by
      rw [error.suggestion_diagnostic]
      exact error.cause.suggestion_ne_empty
    refine ⟨hint, fun guard => ?_⟩
    have apart : Text.Diverge guard.wording error.diagnostic.message := by
      rw [error.message_diagnostic]
      exact SyntaxError.diverge_message (guard.diverge_message error.cause)
    exact apart.1
  · exact fun error member => SyntaxError.mem_of_blamed? member
  · intro stmt member
    obtain ⟨word, hword, -⟩ := Parse.exists_word tokens stmt member
    exact hword.shaped
  · exact fun file source d member => (Compilation.diverge_message file source d member).ne

end Quill
