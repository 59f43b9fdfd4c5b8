import Quill.Grammar.Content
import Quill.Proofs.Number.Numeral

/-!
The grammar, as relations between the tokens of a phrase and the tree that they write. The relations
say nothing about an order of reading, about errors or about what follows a phrase.

An expression is an operand, or an operand, an operator and an expression. The left side of a binary
node is therefore always one operand, and a chain of operators groups to the right.
-/
namespace Quill

/-- A token that writes a literal. A numeral lies in the range of its type. -/
inductive LiteralWord (t : Token) : Literal → Prop
  | integer {n : Int} (kind : t.kind = .intLiteral) (text : Numeral.Signed t.lexeme.toList n)
      (lower : -2 ^ 63 ≤ n) (upper : n < 2 ^ 63) : LiteralWord t (.integer n)
  | float {x : Binary32} (kind : t.kind = .floatLiteral)
      (finite : Binary32.read? t.lexeme.toList = some x) : LiteralWord t (.float x)
  | string (kind : t.kind = .stringLiteral) : LiteralWord t (.string t.lexeme)
  | trueWord (kind : t.kind = .trueWord) : LiteralWord t (.bool true)
  | falseWord (kind : t.kind = .falseWord) : LiteralWord t (.bool false)

mutual

/-- The tokens of an expression. A binary node stands where its operator does. -/
inductive ExpressionWord : List Token → Expr → Prop
  | operand {word : List Token} {e : Expr} (h : OperandWord word e) : ExpressionWord word e
  | binary {word more : List Token} {left right : Expr} {operator : Operator} {t : Token}
      (hleft : OperandWord word left) (kind : t.kind = operator.kind)
      (hright : ExpressionWord more right) :
      ExpressionWord (word ++ t :: more) (.binary left operator right t.location)

/-- The tokens of an operand. Parentheses leave no node. -/
inductive OperandWord : List Token → Expr → Prop
  | literal {t : Token} {value : Literal} (h : LiteralWord t value) :
      OperandWord [t] (.literal value t.location)
  | identifier {t : Token} (kind : t.kind = .identifier) :
      OperandWord [t] (.identifier t.lexeme t.location)
  | parens {first last : Token} {word : List Token} {e : Expr} (opening : first.kind = .parenOpen)
      (inner : ExpressionWord word e) (closing : last.kind = .parenClose) :
      OperandWord (first :: (word ++ [last])) e
  | array {word : List Token} {e : Expr} (h : ArrayWord word e) : OperandWord word e

/-- The tokens of an array. It stands where its opening bracket does. -/
inductive ArrayWord : List Token → Expr → Prop
  | empty {first last : Token} (opening : first.kind = .bracketOpen)
      (closing : last.kind = .bracketClose) : ArrayWord [first, last] (.array [] first.location)
  | some {first last : Token} {word : List Token} {elements : List Expr}
      (opening : first.kind = .bracketOpen) (inner : ElementsWord word elements)
      (closing : last.kind = .bracketClose) :
      ArrayWord (first :: (word ++ [last])) (.array elements first.location)

inductive ElementsWord : List Token → List Expr → Prop
  | one {word : List Token} {e : Expr} (h : ExpressionWord word e) : ElementsWord word [e]
  | more {word others : List Token} {e : Expr} {elements : List Expr} {t : Token}
      (hfirst : ExpressionWord word e) (kind : t.kind = .comma)
      (hothers : ElementsWord others elements) :
      ElementsWord (word ++ t :: others) (e :: elements)

end

/-- The tokens of the content of an output: markers `{name}`, and any other tokens up to a closing
bracket. -/
inductive ContentWord : List Token → List Segment → Prop
  | nil : ContentWord [] []
  | text {t : Token} {word : List Token} {segments : List Segment} (notOpen : t.kind ≠ .braceOpen)
      (notClose : t.kind ≠ .bracketClose) (notMark : t.kind ≠ .endOfInput)
      (h : ContentWord word segments) : ContentWord (t :: word) (.text t.lexeme :: segments)
  | marker {first name last : Token} {word : List Token} {segments : List Segment}
      (opening : first.kind = .braceOpen) (identifier : name.kind = .identifier)
      (closing : last.kind = .braceClose) (h : ContentWord word segments) :
      ContentWord (first :: name :: last :: word) (.marker name.lexeme name.location :: segments)

namespace Segment

/-- The runs of text before the first marker, between two markers and after the last one. -/
def runs : List Segment → List (List String)
  | [] => [[]]
  | text lexeme :: more => (lexeme :: (runs more).headD []) :: (runs more).tail
  | marker .. :: more => [] :: runs more

def name? : Segment → Option Expr
  | text _ => none
  | marker name location => some (.identifier name location)

end Segment

/-- The part that a run of text makes: its lexemes with single blanks between them, without the
empty ones in front. A run of empty lexemes makes none. -/
def Interpolation.part? (run : List String) : Option String :=
  match run.dropWhile (· = "") with
  | [] => none
  | lexemes => some (" ".intercalate lexemes)

/-- The interpolation of a content: a part for each run of text, a name for each marker. -/
def Interpolation.ofRuns (segments : List Segment) (location : Location) : Interpolation :=
  ⟨(Segment.runs segments).filterMap part?, segments.filterMap Segment.name?, location⟩

/-- The tokens of a statement. It stands where its first token does, and the content of an output
where the token after the bracket does. -/
inductive StatementWord : List Token → Stmt → Prop
  | scalar {new name type equals : Token} {word : List Token} {tag : TypeName} {value : Expr}
      (hnew : new.kind = .new) (hname : name.kind = .identifier) (htype : type.kind = tag.kind)
      (hequals : equals.kind = .assign) (hvalue : ExpressionWord word value) :
      StatementWord (new :: name :: type :: equals :: word)
        (.scalar name.lexeme tag value new.location)
  | flag {bl name equals : Token} {word : List Token} {value : Expr}
      (hbl : bl.kind = .bl) (hname : name.kind = .identifier) (hequals : equals.kind = .assign)
      (hvalue : ExpressionWord word value) :
      StatementWord (bl :: name :: equals :: word) (.scalar name.lexeme .bool value bl.location)
  | values {new name first last equals : Token} {word : List Token} {value : Expr}
      (hnew : new.kind = .new) (hname : name.kind = .identifier)
      (opening : first.kind = .bracketOpen) (closing : last.kind = .bracketClose)
      (hequals : equals.kind = .assign) (hvalue : ArrayWord word value) :
      StatementWord (new :: name :: first :: last :: equals :: word)
        (.array name.lexeme (.values value) new.location)
  | sized {new name first type last opening count closing : Token} {tag : TypeName} {size : Nat}
      (hnew : new.kind = .new) (hname : name.kind = .identifier) (hfirst : first.kind = .braceOpen)
      (htype : type.kind = tag.kind) (hlast : last.kind = .braceClose)
      (hopening : opening.kind = .bracketOpen) (hcount : count.kind = .intLiteral)
      (text : Numeral.Unsigned count.lexeme.toList size) (bound : size < 2 ^ 64)
      (hclosing : closing.kind = .bracketClose) :
      StatementWord [new, name, first, type, last, opening, count, closing]
        (.array name.lexeme (.sized tag size) new.location)
  | output {stdout opening closing first : Token} {word : List Token} {segments : List Segment}
      (hstdout : stdout.kind = .stdout) (hopening : opening.kind = .bracketOpen)
      (hcontent : ContentWord word segments) (hclosing : closing.kind = .bracketClose)
      (hfirst : (word ++ [closing]).head? = Option.some first) :
      StatementWord (stdout :: opening :: (word ++ [closing]))
        (.output (.ofRuns segments first.location) stdout.location)

/-- The tokens of a program: statements, with comments before, between and after them. -/
inductive ProgramWord : List Token → List Stmt → Prop
  | comments {word : List Token} (h : ∀ t ∈ word, t.kind = .comment) : ProgramWord word []
  | statement {comments word more : List Token} {stmt : Stmt} {statements : List Stmt}
      (hcomments : ∀ t ∈ comments, t.kind = .comment) (hstmt : StatementWord word stmt)
      (hmore : ProgramWord more statements) :
      ProgramWord (comments ++ word ++ more) (stmt :: statements)

def Markless (tokens : List Token) : Prop :=
  ∀ t ∈ tokens, t.kind ≠ .endOfInput

@[simp] theorem markless_nil : Markless [] := by
  simp [Markless]

@[simp] theorem markless_cons {t : Token} {tokens : List Token} :
    Markless (t :: tokens) ↔ t.kind ≠ .endOfInput ∧ Markless tokens := by
  simp [Markless]

@[simp] theorem markless_append {tokens more : List Token} :
    Markless (tokens ++ more) ↔ Markless tokens ∧ Markless more := by
  simp only [Markless, List.mem_append]
  grind

theorem markless_of_comments {comments : List Token} (h : ∀ t ∈ comments, t.kind = .comment) :
    Markless comments := by
  intro t member
  simp [h t member]

/-- Tokens that are neither end marks nor comments. -/
def Solid (tokens : List Token) : Prop :=
  ∀ t ∈ tokens, t.kind ≠ .endOfInput ∧ t.kind ≠ .comment

@[simp] theorem solid_nil : Solid [] := by
  simp [Solid]

@[simp] theorem solid_cons {t : Token} {tokens : List Token} :
    Solid (t :: tokens) ↔ (t.kind ≠ .endOfInput ∧ t.kind ≠ .comment) ∧ Solid tokens :=
  List.forall_mem_cons

@[simp] theorem solid_append {tokens more : List Token} :
    Solid (tokens ++ more) ↔ Solid tokens ∧ Solid more :=
  List.forall_mem_append

/-- Comments may be skipped and end marks end a reading; most words have neither. -/
theorem Solid.markless {tokens : List Token} (h : Solid tokens) : Markless tokens :=
  fun t member => (h t member).1

/-- A token that shows a value is none of those that a reading passes over. -/
theorem LiteralWord.solid {t : Token} {value : Literal} (h : LiteralWord t value) : Solid [t] := by
  cases h <;> simp [*]

theorem Operator.solid_of_kind {operator : Operator} {t : Token} (kind : t.kind = operator.kind) :
    Solid [t] := by
  cases operator <;> simp [kind, Operator.kind]

theorem TypeName.solid_of_kind {type : TypeName} {t : Token} (kind : t.kind = type.kind) :
    Solid [t] := by
  cases type <;> simp [kind, TypeName.kind]

mutual

/-- By the four kinds of words that expressions are made of, all at once. -/
theorem ExpressionWord.solid {word : List Token} {e : Expr} : ExpressionWord word e → Solid word
  | .operand h => h.solid
  | .binary hleft kind hright => by
    rw [List.append_cons]
    simp only [solid_append, hleft.solid, Operator.solid_of_kind kind, hright.solid, and_self]

theorem OperandWord.solid {word : List Token} {e : Expr} : OperandWord word e → Solid word
  | .literal h => h.solid
  | .identifier kind => by simp [kind]
  | .parens opening inner closing => by simp [opening, inner.solid, closing]
  | .array h => h.solid

theorem ArrayWord.solid {word : List Token} {e : Expr} : ArrayWord word e → Solid word
  | .empty opening closing => by simp [opening, closing]
  | .some opening inner closing => by simp [opening, inner.solid, closing]

theorem ElementsWord.solid {word : List Token} {es : List Expr} : ElementsWord word es → Solid word
  | .one h => h.solid
  | .more hfirst kind hothers => by simp [hfirst.solid, kind, hothers.solid]

end

theorem ContentWord.markless {word : List Token} {pieces : List Segment}
    (h : ContentWord word pieces) : Markless word := by
  induction h with
  | nil => simp
  | text _ _ notMark _ ih => simp [notMark, ih]
  | marker opening identifier closing _ ih => simp [opening, identifier, closing, ih]

/-- There are no comments in a declaration. -/
theorem StatementWord.solid {word : List Token} {stmt : Stmt} (h : StatementWord word stmt)
    (declares : stmt.declared?.isSome) : Solid word := by
  cases h with
  | scalar hnew hname htype hequals hvalue =>
    have htype := TypeName.solid_of_kind htype
    simp_all [hvalue.solid]
  | flag hbl hname hequals hvalue => simp [hbl, hname, hequals, hvalue.solid]
  | values hnew hname opening closing hequals hvalue =>
    simp [hnew, hname, opening, closing, hequals, hvalue.solid]
  | sized hnew hname hfirst htype hlast hopening hcount _ _ hclosing =>
    have htype := TypeName.solid_of_kind htype
    simp_all
  | output => cases declares

theorem StatementWord.markless {word : List Token} {stmt : Stmt} (h : StatementWord word stmt) :
    Markless word := by
  by_cases declares : stmt.declared?.isSome
  · exact (h.solid declares).markless
  · cases h with
    | output hstdout hopening hcontent hclosing _ =>
      simp [hstdout, hopening, hcontent.markless, hclosing]
    | scalar | flag | values | sized => exact absurd rfl declares

/-- The first token of a statement tells it from a comment and from an end mark. -/
theorem StatementWord.exists_cons {word : List Token} {stmt : Stmt} (h : StatementWord word stmt) :
    ∃ t more, word = t :: more ∧ (t.kind = .new ∨ t.kind = .bl ∨ t.kind = .stdout) := by
  cases h with
  | scalar hnew => exact ⟨_, _, rfl, .inl hnew⟩
  | flag hbl => exact ⟨_, _, rfl, .inr (.inl hbl)⟩
  | values hnew => exact ⟨_, _, rfl, .inl hnew⟩
  | sized hnew => exact ⟨_, _, rfl, .inl hnew⟩
  | output hstdout => exact ⟨_, _, rfl, .inr (.inr hstdout)⟩

theorem ProgramWord.markless {word : List Token} {statements : List Stmt}
    (h : ProgramWord word statements) : Markless word := by
  induction h with
  | comments hcomments => exact markless_of_comments hcomments
  | statement hcomments hstmt _ ih => simp [markless_of_comments hcomments, hstmt.markless, ih]

/-- Comments in front of a program make no difference. -/
theorem ProgramWord.after_comments {comments word : List Token} {statements : List Stmt}
    (hcomments : ∀ t ∈ comments, t.kind = .comment) (h : ProgramWord word statements) :
    ProgramWord (comments ++ word) statements := by
  cases h with
  | comments h =>
    refine .comments fun t member => ?_
    rcases List.mem_append.mp member with front | back
    · exact hcomments t front
    · exact h t back
  | @statement inner word more stmt statements hinner hstmt hmore =>
    rw [← List.append_assoc, ← List.append_assoc]
    refine .statement (fun t member => ?_) hstmt hmore
    rcases List.mem_append.mp member with front | back
    · exact hcomments t front
    · exact hinner t back

end Quill
