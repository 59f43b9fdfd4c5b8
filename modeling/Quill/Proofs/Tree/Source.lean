import Quill.Proofs.Lexeme.Layout
import Quill.Proofs.Number.Numeral
import Quill.Tree.Basic

/-!
Programs in source form. A program is printed as a list of tokens; a text that they are laid out in
is a source of the program. The left side of a binary node is in parentheses if it is a binary node
itself, the right side never is, and the parts and the markers of an output take turns.
-/
namespace Quill

/-- The one text of a kind of token, and the lower case text of a truth value. The other kinds have
none. -/
def TokenKind.spelling : TokenKind → String
  | assign => "=" | equal => "==" | notEqual => "!="
  | greater => ">" | less => "<" | greaterEqual => ">=" | lessEqual => "<="
  | stringType => "string" | intType => "int" | floatType => "float" | boolType => "bool"
  | charType => "char"
  | new => "new" | bl => "bl" | stdout => "stdout"
  | trueWord => "true" | falseWord => "false"
  | bracketOpen => "[" | bracketClose => "]" | braceOpen => "\x7b" | braceClose => "\x7d"
  | parenOpen => "(" | parenClose => ")"
  | comma => "," | dot => "." | colon => ":"
  | plus => "+" | minus => "-" | star => "*" | slash => "/" | percent => "%"
  | identifier | intLiteral | floatLiteral | stringLiteral | comment | endOfInput | unknown => ""

namespace BareToken

/-- The token of a kind that has but one. -/
def fixed (kind : TokenKind) : BareToken := ⟨kind, kind.spelling⟩

def name (text : String) : BareToken := ⟨.identifier, text⟩

def string (text : String) : BareToken := ⟨.stringLiteral, text⟩

def numeral (n : Nat) : BareToken := ⟨.intLiteral, toString n⟩

def inParens (tokens : List BareToken) : List BareToken :=
  fixed .parenOpen :: (tokens ++ [fixed .parenClose])

end BareToken

open BareToken

/-- What the source form of a program leaves open. -/
structure SourceStyle where
  /-- The text of a float, which may differ from place to place. -/
  decimal : Location → Binary32 → String
  /-- Whether the truth value that is declared at a place has the short declaration. -/
  isShort : Location → Bool

def Literal.printed (decimal : Binary32 → String) : Literal → BareToken
  | integer n => ⟨.intLiteral, toString n⟩
  | float x => ⟨.floatLiteral, decimal x⟩
  | string text => .string text
  | bool true => fixed .trueWord
  | bool false => fixed .falseWord

namespace Expr

def isBinary : Expr → Bool
  | binary .. => true
  | _ => false

def isArray : Expr → Bool
  | array .. => true
  | _ => false

mutual

def printed (style : SourceStyle) : Expr → List BareToken
  | literal value location => [value.printed (style.decimal location)]
  | identifier text _ => [name text]
  | binary left operator right _ =>
    (if left.isBinary then inParens (printed style left) else printed style left) ++
      fixed operator.kind :: printed style right
  | array elements _ => fixed .bracketOpen :: (printedAll style elements ++ [fixed .bracketClose])

/-- The tokens of expressions with commas between them. -/
def printedAll (style : SourceStyle) : List Expr → List BareToken
  | [] => []
  | [e] => printed style e
  | e :: next :: rest => printed style e ++ fixed .comma :: printedAll style (next :: rest)

end

/-- The tokens of an expression in an output. -/
def printedMarker (style : SourceStyle) (e : Expr) : List BareToken :=
  fixed .braceOpen :: (e.printed style ++ [fixed .braceClose])

end Expr

/-- Parts and markers in turn, a part first, as long as there are any of each. -/
def Interpolation.printedTurns (style : SourceStyle) : List String → List Expr → List BareToken
  | [], expressions => expressions.flatMap (Expr.printedMarker style)
  | part :: parts, [] => .string part :: printedTurns style parts []
  | part :: parts, e :: expressions =>
    .string part :: (e.printedMarker style ++ printedTurns style parts expressions)

def Stmt.printed (style : SourceStyle) : Stmt → List BareToken
  | scalar text type value location =>
    (if type = .bool ∧ style.isShort location then [fixed .bl, name text]
      else [fixed .new, name text, fixed type.kind]) ++ fixed .assign :: value.printed style
  | array text (.values value) _ =>
    fixed .new :: name text :: fixed .bracketOpen :: fixed .bracketClose :: fixed .assign ::
      value.printed style
  | array text (.sized type size) _ =>
    [fixed .new, name text, fixed .braceOpen, fixed type.kind, fixed .braceClose,
      fixed .bracketOpen, numeral size, fixed .bracketClose]
  | output content _ =>
    fixed .stdout :: fixed .bracketOpen ::
      (Interpolation.printedTurns style content.parts content.expressions ++ [fixed .bracketClose])

def Program.printed (style : SourceStyle) (program : Program) : List BareToken :=
  program.statements.flatMap (Stmt.printed style)

/-- A name that a declaration can have: no word that is reserved. -/
def IsName (text : String) : Prop := WellSpelled .identifier text.toList

/-- A numeral without a sign can write the integer, and the text that is meant for it the float. -/
def Literal.Printable (decimal : Binary32 → String) : Literal → Prop
  | integer n => 0 ≤ n ∧ n < 2 ^ 63
  | float x => WellSpelled .floatLiteral (decimal x).toList ∧
      Binary32.read? (decimal x).toList = some x
  | string _ => True
  | bool _ => True

namespace Expr

mutual

def Printable (style : SourceStyle) : Expr → Prop
  | literal value location => value.Printable (style.decimal location)
  | identifier text _ => IsName text
  | binary left _ right _ => Printable style left ∧ Printable style right
  | array elements _ => AllPrintable style elements

def AllPrintable (style : SourceStyle) : List Expr → Prop
  | [] => True
  | e :: rest => Printable style e ∧ AllPrintable style rest

end

/-- An expression that an output can show. -/
def IsMarker (e : Expr) : Prop := ∃ text location, e = identifier text location ∧ IsName text

end Expr

/-- There are markers between any two parts, which are not empty. -/
structure Interpolation.Printable (content : Interpolation) : Prop where
  nonempty : ∀ part ∈ content.parts, part ≠ ""
  markers : ∀ e ∈ content.expressions, e.IsMarker
  turns : content.parts.length ≤ content.expressions.length + 1

def Stmt.Printable (style : SourceStyle) : Stmt → Prop
  | scalar text _ value _ => IsName text ∧ value.Printable style
  | array text (.values value) _ => IsName text ∧ value.isArray ∧ value.Printable style
  | array text (.sized _ size) _ => IsName text ∧ size < 2 ^ 64
  | output content _ => content.Printable

def Program.Printable (style : SourceStyle) (program : Program) : Prop :=
  ∀ stmt ∈ program.statements, stmt.Printable style

def AllHaveText (tokens : List BareToken) : Prop :=
  ∀ t ∈ tokens, t.HasText

@[simp] theorem allHaveText_nil : AllHaveText [] := by
  simp [AllHaveText]

@[simp] theorem allHaveText_cons {t : BareToken} {tokens : List BareToken} :
    AllHaveText (t :: tokens) ↔ t.HasText ∧ AllHaveText tokens :=
  List.forall_mem_cons

@[simp] theorem allHaveText_append {tokens more : List BareToken} :
    AllHaveText (tokens ++ more) ↔ AllHaveText tokens ∧ AllHaveText more :=
  List.forall_mem_append

/-- A kind with a spelling of its own shows it. -/
theorem hasText_fixed {kind : TokenKind} (h : kind.spelling ≠ "") : (fixed kind).HasText := by
  cases kind <;> first
    | exact absurd rfl h
    | exact .inr (.sign (by decide))
    | exact .inr (.doubleSign (by decide))
    | exact .inr (.reserved (by decide))

theorem IsName.hasText {text : String} (h : IsName text) : (name text).HasText := .inr h

theorem hasText_numeral (n : Nat) : (numeral n).HasText :=
  have digits := Numeral.digits_toString n
  .inr (.integer digits.nonempty digits.digits)

/-- A string literal has its quotes even if it is empty, and a numeral a digit. -/
theorem Literal.Printable.hasText {decimal : Binary32 → String} {value : Literal}
    (h : value.Printable decimal) : (value.printed decimal).HasText := by
  cases value with
  | integer n =>
    obtain ⟨lower, -⟩ := h
    lift n to Nat using lower
    exact hasText_numeral n
  | float x => exact .inr h.1
  | string text => exact .inl rfl
  | bool value => cases value <;> exact hasText_fixed (by decide)

namespace Expr

variable {style : SourceStyle}

mutual

/-- By the form of the expression, with lists of expressions alongside as the printer goes. -/
theorem allHaveText_printed : ∀ (e : Expr) (_ : e.Printable style), AllHaveText (e.printed style)
  | literal value location, h => by
    simpa [printed] using Literal.Printable.hasText h
  | identifier text location, h => by
    simpa [printed] using IsName.hasText h
  | binary left operator right location, h => by
    rw [Printable] at h
    have sign : (fixed operator.kind).HasText := hasText_fixed (by cases operator <;> decide)
    have onLeft := allHaveText_printed left h.1
    have onRight := allHaveText_printed right h.2
    rw [printed]
    split <;> simp (disch := decide) [inParens, hasText_fixed, sign, onLeft, onRight]
  | array elements location, h => by
    rw [Printable] at h
    have inside := allHaveText_printedAll elements h
    simp (disch := decide) [printed, hasText_fixed, inside]

theorem allHaveText_printedAll : ∀ (elements : List Expr) (_ : AllPrintable style elements),
    AllHaveText (printedAll style elements)
  | [], _ => by simp [printedAll]
  | [e], h => by
    rw [AllPrintable] at h
    exact allHaveText_printed e h.1
  | e :: next :: rest, h => by
    rw [AllPrintable] at h
    have onFirst := allHaveText_printed e h.1
    have onRest := allHaveText_printedAll (next :: rest) h.2
    simp (disch := decide) [printedAll, hasText_fixed, onFirst, onRest]

end

theorem IsMarker.allHaveText {e : Expr} (h : e.IsMarker) : AllHaveText (e.printedMarker style) := by
  obtain ⟨text, location, rfl, isName⟩ := h
  simp (disch := decide) [printedMarker, printed, hasText_fixed, isName.hasText]

end Expr

/-- By the turns of parts and markers, of which either may run out first. -/
theorem Interpolation.allHaveText_printedTurns {style : SourceStyle} (parts : List String)
    (expressions : List Expr) (h : ∀ e ∈ expressions, e.IsMarker) :
    AllHaveText (printedTurns style parts expressions) := by
  have string : ∀ part, (BareToken.string part).HasText := fun part => .inl rfl
  fun_induction printedTurns style parts expressions with
  | case1 expressions =>
    intro t member
    obtain ⟨e, isMarker, member⟩ := List.mem_flatMap.mp member
    exact (h e isMarker).allHaveText t member
  | case2 part parts ih => simpa [string part] using ih h
  | case3 part parts e expressions ih =>
    rw [List.forall_mem_cons] at h
    simp [string part, h.1.allHaveText, ih h.2]

theorem Stmt.Printable.allHaveText {style : SourceStyle} {stmt : Stmt} (h : stmt.Printable style) :
    AllHaveText (stmt.printed style) := by
  cases stmt with
  | scalar text type value location =>
    have onType : (fixed type.kind).HasText := hasText_fixed (by cases type <;> decide)
    have onValue := value.allHaveText_printed h.2
    rw [printed]
    split <;> simp (disch := decide) [hasText_fixed, h.1.hasText, onType, onValue]
  | array text init location =>
    cases init with
    | values value =>
      have onValue := value.allHaveText_printed h.2.2
      simp (disch := decide) [printed, hasText_fixed, h.1.hasText, onValue]
    | sized type size =>
      have onType : (fixed type.kind).HasText := hasText_fixed (by cases type <;> decide)
      have onSize := hasText_numeral size
      simp (disch := decide) [printed, hasText_fixed, h.1.hasText, onType, onSize]
  | output content location =>
    have onContent : AllHaveText (Interpolation.printedTurns style _ _) :=
      Interpolation.allHaveText_printedTurns content.parts content.expressions h.markers
    simp (disch := decide) [printed, hasText_fixed, onContent]

/-- A program with each printed token on a line of its own. -/
def Program.source (style : SourceStyle) (program : Program) : String :=
  String.ofList (lines (program.printed style))

/-- A line feed ends any token that is printed, so one token a line is a layout. -/
theorem Program.Printable.laid_source {style : SourceStyle} {program : Program}
    (h : program.Printable style) : Laid (program.printed style) (program.source style).toList := by
  rw [source, String.toList_ofList]
  refine laid_lines fun t member => ?_
  obtain ⟨stmt, isStmt, member⟩ := List.mem_flatMap.mp member
  exact (h stmt isStmt).allHaveText t member

namespace Expr

mutual

def unplaced : Expr → Expr
  | literal value _ => literal value .start
  | identifier text _ => identifier text .start
  | binary left operator right _ => binary (unplaced left) operator (unplaced right) .start
  | array elements _ => array (unplacedAll elements) .start

def unplacedAll : List Expr → List Expr
  | [] => []
  | e :: rest => unplaced e :: unplacedAll rest

end

end Expr

def ArrayInit.unplaced : ArrayInit → ArrayInit
  | values value => values value.unplaced
  | sized type size => sized type size

def Interpolation.unplaced (content : Interpolation) : Interpolation :=
  ⟨content.parts, Expr.unplacedAll content.expressions, .start⟩

def Stmt.unplaced : Stmt → Stmt
  | scalar text type value _ => scalar text type value.unplaced .start
  | array text init _ => array text init.unplaced .start
  | output content _ => output content.unplaced .start

def Program.unplaced (program : Program) : Program :=
  ⟨program.statements.map Stmt.unplaced, .start⟩

end Quill
