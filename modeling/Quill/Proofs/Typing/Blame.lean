import Quill.Proofs.Grammar.Word
import Quill.Proofs.Typing.Usage

/-!
The tokens that the analysis blames. What is wrong with an operation is reported at its operator,
what is wrong with an array at its opening bracket, what is wrong with a name at the name, and what
is wrong with a declaration at the token that opens it. So each error leads back to a token of the
statement in which it was found.
-/
namespace Quill

/-- A token that opens the declaration of a name, which is the token behind it. -/
def Token.Declares (tokens : List Token) (name : String) (t : Token) : Prop :=
  ∃ before other after, tokens = before ++ t :: other :: after ∧ (t.kind = .new ∨ t.kind = .bl) ∧
    other.kind = .identifier ∧ other.lexeme = name

/-- The kinds of token that an error can blame. -/
def SemanticCause.Suits (tokens : List Token) (t : Token) : SemanticCause → Prop
  | variableRedeclared name | arrayRedeclared name => t.Declares tokens name
  | assignmentMismatch .. | initializerNotArray => ∃ name, t.Declares tokens name
  | undefined name _ => t.kind = .identifier ∧ t.lexeme = name
  | arithmeticOnString | arithmeticMismatch .. | comparisonMismatch .. =>
    ∃ operator : Operator, t.kind = operator.kind
  | mixedElements _ => t.kind = .bracketOpen

/-- The token that an error of the analysis blames. -/
structure SemanticError.Blames (tokens : List Token) (error : SemanticError) (t : Token) :
    Prop where
  member : t ∈ tokens
  place : t.location = error.location
  suits : error.cause.Suits tokens t

/-- Blaming looks at neighbours of a token, which are there in any list around the phrase. -/
theorem Token.Declares.of_isInfix {word tokens : List Token} {name : String} {t : Token}
    (h : t.Declares word name) (inside : word <:+: tokens) : t.Declares tokens name := by
  obtain ⟨before, other, after, rfl, rest⟩ := h
  obtain ⟨front, back, rfl⟩ := inside
  exact ⟨front ++ before, other, after ++ back, by simp, rest⟩

theorem SemanticCause.Suits.of_isInfix {word tokens : List Token} {t : Token} {cause : SemanticCause}
    (h : cause.Suits word t) (inside : word <:+: tokens) : cause.Suits tokens t := by
  cases cause with
  | variableRedeclared | arrayRedeclared => exact Token.Declares.of_isInfix h inside
  | assignmentMismatch | initializerNotArray =>
    obtain ⟨name, declares⟩ := h
    exact ⟨name, declares.of_isInfix inside⟩
  | undefined | arithmeticOnString | arithmeticMismatch | comparisonMismatch | mixedElements =>
    exact h

theorem SemanticError.Blames.of_isInfix {word tokens : List Token} {error : SemanticError} {t : Token}
    (h : error.Blames word t) (inside : word <:+: tokens) : error.Blames tokens t :=
  ⟨inside.subset h.member, h.place, h.suits.of_isInfix inside⟩

theorem Token.Declares.kind_ne {tokens : List Token} {name : String} {t : Token}
    (h : t.Declares tokens name) : t.kind ≠ .endOfInput := by
  obtain ⟨_, _, _, -, kind | kind, -⟩ := h <;> simp [kind]

/-- No error of the analysis blames the end mark. -/
theorem SemanticCause.Suits.kind_ne {tokens : List Token} {t : Token} {cause : SemanticCause}
    (h : cause.Suits tokens t) : t.kind ≠ .endOfInput := by
  cases cause with
  | variableRedeclared | arrayRedeclared => exact Token.Declares.kind_ne h
  | assignmentMismatch | initializerNotArray =>
    obtain ⟨name, declares⟩ := h
    exact declares.kind_ne
  | arithmeticOnString | arithmeticMismatch | comparisonMismatch =>
    obtain ⟨operator, kind⟩ := h
    cases operator <;> simp [kind, Operator.kind]
  | undefined => simp [h.1]
  | mixedElements => simp [show t.kind = .bracketOpen from h]

/-- All errors of a check blame tokens of a phrase. -/
def Checked.BlamesIn {α : Type} (tokens : List Token) (checked : Checked α) : Prop :=
  ∀ error ∈ checked.errors, ∃ t, error.Blames tokens t

namespace Checked.BlamesIn

variable {α β : Type} {tokens word : List Token} {symbols : SymbolTable}

theorem clean (value : α) : (Checked.clean value symbols).BlamesIn tokens := by
  simp [BlamesIn, Checked.clean]

/-- An error is placed where a token of the phrase stands. -/
theorem faulty (value : α) {cause : SemanticCause} {t : Token} (member : t ∈ tokens)
    (suits : cause.Suits tokens t) :
    (Checked.faulty value symbols cause t.location).BlamesIn tokens := by
  intro error found
  obtain rfl := List.mem_singleton.mp found
  exact ⟨t, member, rfl, suits⟩

/-- Both checks are of the same phrase; where they are of two parts of it, the parts are widened
first. -/
theorem andThen {first : Checked α} {next : α → SymbolTable → Checked β}
    (hfirst : first.BlamesIn tokens)
    (hnext : ∀ value symbols, (next value symbols).BlamesIn tokens) :
    (first.andThen next).BlamesIn tokens := by
  intro error found
  rcases List.mem_append.mp found with inFirst | inNext
  · exact hfirst error inFirst
  · exact hnext _ _ error inNext

theorem of_isInfix {checked : Checked α} (h : checked.BlamesIn word) (inside : word <:+: tokens) :
    checked.BlamesIn tokens := by
  intro error found
  obtain ⟨t, blames⟩ := h error found
  exact ⟨t, blames.of_isInfix inside⟩

theorem ofType {type : Except SemanticCause ValueType} {t : Token} (member : t ∈ tokens)
    (suits : ∀ cause, type = .error cause → cause.Suits tokens t) :
    (Checked.ofType symbols t.location type).BlamesIn tokens := by
  cases type with
  | ok type => exact clean _
  | error cause => exact faulty _ member (suits cause rfl)

end Checked.BlamesIn

/-- What is wrong with an operation suits its operator. -/
theorem suits_of_operationType {tokens : List Token} {operator : Operator} {t : Token}
    (kind : t.kind = operator.kind) {left right : ValueType} {cause : SemanticCause}
    (h : operationType operator left right = .error cause) : cause.Suits tokens t := by
  have suits : ∃ operator : Operator, t.kind = operator.kind := ⟨operator, kind⟩
  unfold operationType arithmeticType comparisonType at h
  split at h
  · cases h
  split at h
  · split at h
    · split at h <;> cases h
      exact suits
    split at h
    · cases h
    split at h <;> cases h
    exact suits
  · split at h <;> cases h
    exact suits

theorem suits_of_elementType? {tokens : List Token} {t : Token} (kind : t.kind = .bracketOpen)
    {types : List ValueType} {type : Except SemanticCause ValueType} {cause : SemanticCause}
    (found : elementType? types = some type) (h : type = .error cause) : cause.Suits tokens t := by
  subst h
  cases types with
  | nil => cases found
  | cons first rest =>
    simp only [elementType?, Option.some.injEq] at found
    split at found
    · cases found
    split at found <;> cases found
    exact kind

/-- The check of the elements of an array, and of their common type. -/
theorem Checked.BlamesIn.ofElements {α : Type} {tokens : List Token} {t : Token}
    {symbols : SymbolTable} {elements : List Expr} (empty : α) (make : ValueType → α)
    (inside : (Expr.checkAll symbols elements).BlamesIn tokens) (member : t ∈ tokens)
    (opening : t.kind = .bracketOpen) :
    ((Expr.checkAll symbols elements).andThen fun types symbols =>
      match elementType? types with
      | none => Checked.clean empty symbols
      | some type => (Checked.ofType symbols t.location type).andThen fun type symbols =>
        .clean (make type) symbols).BlamesIn tokens := by
  refine inside.andThen fun types symbols => ?_
  split
  · exact clean _
  · next type found =>
    exact (ofType member fun cause => suits_of_elementType? opening found).andThen
      fun _ _ => clean _

mutual

/-- By the words and not by the trees: a tree does not tell which tokens it was read from. -/
theorem ExpressionWord.blamesIn {word : List Token} {e : Expr} (symbols : SymbolTable) :
    ExpressionWord word e → (e.check symbols).BlamesIn word
  | .operand h => h.blamesIn symbols
  | @ExpressionWord.binary first more _ _ _ t hleft kind hright => by
    rw [Expr.check]
    have later : more <:+: first ++ t :: more := ⟨first ++ [t], [], by simp⟩
    refine ((hleft.blamesIn symbols).of_isInfix (List.infix_append [] first _)).andThen
      fun leftType symbols => ?_
    refine ((hright.blamesIn symbols).of_isInfix later).andThen fun rightType symbols => ?_
    exact .ofType (by simp) fun cause => suits_of_operationType kind

theorem OperandWord.blamesIn {word : List Token} {e : Expr} (symbols : SymbolTable) :
    OperandWord word e → (e.check symbols).BlamesIn word
  | .literal _ => .clean _
  | .identifier kind => by
    rw [Expr.check]
    split
    · exact .clean _
    · exact .faulty _ (by simp) ⟨kind, rfl⟩
  | @OperandWord.parens first last inner _ _ h _ =>
    (h.blamesIn symbols).of_isInfix ⟨[first], [last], by simp⟩
  | .array h => by
    obtain ⟨elements, t, rfl, member, opening, inside⟩ := h.exists_blamesIn
    rw [Expr.check]
    exact .ofElements _ _ (inside symbols) member opening

/-- The elements of an array, and its opening bracket. -/
theorem ArrayWord.exists_blamesIn {word : List Token} {e : Expr} : ArrayWord word e →
    ∃ elements t, e = .array elements t.location ∧ t ∈ word ∧ t.kind = .bracketOpen ∧
      ∀ symbols, (Expr.checkAll symbols elements).BlamesIn word
  | .empty opening _ => ⟨[], _, rfl, by simp, opening, fun _ => .clean _⟩
  | @ArrayWord.some first last inner elements opening h closing =>
    ⟨elements, first, rfl, by simp, opening, fun symbols =>
      (h.blamesIn symbols).of_isInfix ⟨[first], [last], by simp⟩⟩

theorem ElementsWord.blamesIn {word : List Token} {elements : List Expr} (symbols : SymbolTable) :
    ElementsWord word elements → (Expr.checkAll symbols elements).BlamesIn word
  | .one h => by
    rw [Expr.checkAll]
    exact (h.blamesIn symbols).andThen fun _ _ => .clean _
  | @ElementsWord.more first others _ _ t hfirst kind hothers => by
    rw [Expr.checkAll]
    have later : others <:+: first ++ t :: others := ⟨first ++ [t], [], by simp⟩
    refine ((hfirst.blamesIn symbols).of_isInfix (List.infix_append [] first _)).andThen
      fun type symbols => ?_
    exact ((hothers.blamesIn symbols).of_isInfix later).andThen fun _ _ => .clean _

end

theorem ContentWord.blamesIn {word : List Token} {pieces : List Segment}
    (h : ContentWord word pieces) (symbols : SymbolTable) :
    (Expr.checkAll symbols (pieces.filterMap Segment.name?)).BlamesIn word := by
  induction h generalizing symbols with
  | nil => exact .clean _
  | @text t word _ _ _ _ _ ih => exact (ih symbols).of_isInfix (List.suffix_cons t word).isInfix
  | @marker first name last word pieces _ identifier _ _ ih =>
    have marked : ExpressionWord [name] (.identifier name.lexeme name.location) :=
      .operand (.identifier identifier)
    show (Expr.checkAll symbols (.identifier name.lexeme name.location ::
      pieces.filterMap Segment.name?)).BlamesIn _
    rw [Expr.checkAll]
    refine ((marked.blamesIn symbols).of_isInfix ⟨[first], last :: word, by simp⟩).andThen
      fun type symbols => ?_
    exact ((ih symbols).of_isInfix ⟨[first, name, last], [], by simp⟩).andThen fun _ _ => .clean _

theorem Checked.BlamesIn.enter {tokens : List Token} {symbols : SymbolTable} (name : String)
    (symbol : Symbol) : (symbols.enter name symbol).BlamesIn tokens := by
  unfold SymbolTable.enter
  split <;> exact clean _

theorem Token.Declares.mem {tokens : List Token} {name : String} {t : Token}
    (h : t.Declares tokens name) : t ∈ tokens := by
  obtain ⟨before, other, after, rfl, -⟩ := h
  simp

/-- The first two tokens of a declaration. -/
theorem StatementWord.exists_declares {word : List Token} {stmt : Stmt} {name : String}
    (h : StatementWord word stmt) (declared : stmt.declared? = some name) :
    ∃ t : Token, t.location = stmt.place ∧ t.Declares word name := by
  cases h with
  | scalar hnew hname => cases declared; exact ⟨_, rfl, [], _, _, rfl, .inl hnew, hname, rfl⟩
  | flag hbl hname => cases declared; exact ⟨_, rfl, [], _, _, rfl, .inr hbl, hname, rfl⟩
  | values hnew hname => cases declared; exact ⟨_, rfl, [], _, _, rfl, .inl hnew, hname, rfl⟩
  | sized hnew hname => cases declared; exact ⟨_, rfl, [], _, _, rfl, .inl hnew, hname, rfl⟩
  | output => cases declared

namespace Checked.BlamesIn

variable {tokens : List Token} {name : String} {location : Location}

/-- A declaration is blamed at its first token, behind which its name stands. -/
theorem declaring {α : Type} (value : α) {t : Token} {cause : SemanticCause} {symbols : SymbolTable}
    (place : t.location = location) (member : t ∈ tokens) (suits : cause.Suits tokens t) :
    (Checked.faulty value symbols cause location).BlamesIn tokens :=
  place ▸ faulty value member suits

theorem scalar {type : TypeName} {value : Expr}
    (declares : ∃ t : Token, t.location = location ∧ t.Declares tokens name)
    (inside : ∀ symbols, (value.check symbols).BlamesIn tokens) (symbols : SymbolTable) :
    ((Stmt.scalar name type value location).check symbols).BlamesIn tokens := by
  obtain ⟨t, place, declares⟩ := declares
  rw [Stmt.check]
  split
  · exact declaring _ place declares.mem declares
  · refine (inside symbols).andThen fun valueType symbols => ?_
    dsimp only
    split
    · exact declaring _ place declares.mem ⟨name, declares⟩
    · exact enter name _

theorem array {init : ArrayInit}
    (declares : ∃ t : Token, t.location = location ∧ t.Declares tokens name)
    (inside : ∀ symbols, (init.check symbols location).BlamesIn tokens) (symbols : SymbolTable) :
    ((Stmt.array name init location).check symbols).BlamesIn tokens := by
  obtain ⟨t, place, declares⟩ := declares
  rw [Stmt.check]
  split
  · exact declaring _ place declares.mem declares
  · refine (inside symbols).andThen fun elementType symbols => ?_
    split
    · exact enter name _
    · exact clean _

end Checked.BlamesIn

/-- Each error in a statement blames one of its tokens. -/
theorem StatementWord.blamesIn {word : List Token} {stmt : Stmt} (h : StatementWord word stmt)
    (symbols : SymbolTable) : (stmt.check symbols).BlamesIn word := by
  have declares : ∀ name, stmt.declared? = some name →
      ∃ t : Token, t.location = stmt.place ∧ t.Declares word name := fun _ => h.exists_declares
  cases h with
  | @scalar new name type equals value _ _ _ _ _ _ hvalue =>
    have later : value <:+: new :: name :: type :: equals :: value :=
      ⟨[new, name, type, equals], [], by simp⟩
    exact .scalar (declares _ rfl) (fun symbols => (hvalue.blamesIn symbols).of_isInfix later) symbols
  | @flag bl name equals value _ _ _ _ hvalue =>
    have later : value <:+: bl :: name :: equals :: value := ⟨[bl, name, equals], [], by simp⟩
    exact .scalar (declares _ rfl) (fun symbols => (hvalue.blamesIn symbols).of_isInfix later) symbols
  | @values new name first last equals value _ _ _ _ _ _ hvalue =>
    have later : value <:+: new :: name :: first :: last :: equals :: value :=
      ⟨[new, name, first, last, equals], [], by simp⟩
    obtain ⟨elements, t, rfl, member, opening, inside⟩ := hvalue.exists_blamesIn
    refine .array (declares _ rfl) (fun symbols => ?_) symbols
    rw [ArrayInit.check]
    exact .ofElements _ _ ((inside symbols).of_isInfix later) (later.subset member) opening
  | sized => exact .array (declares _ rfl) (fun symbols => .clean _) symbols
  | @output stdout opening closing first content pieces _ _ hcontent =>
    have inside : content <:+: stdout :: opening :: (content ++ [closing]) :=
      ⟨[stdout, opening], [closing], by simp⟩
    rw [Stmt.check]
    exact ((hcontent.blamesIn symbols).of_isInfix inside).andThen fun _ _ => .clean _

/-- Each error in statements blames a token of the one in which it was found. -/
theorem Stmt.checkAll_blamesIn {tokens : List Token} {stmts : List Stmt}
    (words : ∀ stmt ∈ stmts, ∃ word, StatementWord word stmt ∧ word <:+: tokens)
    (symbols : SymbolTable) : (checkAll symbols stmts).BlamesIn tokens := by
  induction stmts generalizing symbols with
  | nil => exact .clean _
  | cons stmt rest ih =>
    rw [List.forall_mem_cons] at words
    obtain ⟨word, hword, inside⟩ := words.1
    rw [checkAll]
    refine ((hword.blamesIn symbols).of_isInfix inside).andThen fun ok symbols => ?_
    exact (ih words.2 symbols).andThen fun _ _ => .clean _

end Quill
