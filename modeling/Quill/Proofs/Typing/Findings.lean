import Quill.Proofs.Typing.Containment
import Quill.Proofs.Typing.Program

/-!
What a statement reports. A redeclaration is the only error of its statement; otherwise the errors
are those of the expressions, and what is wrong with a value as a whole is only said of one that has
a type (`Stmt.Finds`). So errors do not cascade, and no text of a diagnostic prints the type
`unknown`.
-/
namespace Quill

namespace Stmt

def expressions : Stmt → List Expr
  | scalar _ _ value _ => [value]
  | array _ (.values value) _ => [value]
  | array _ (.sized ..) _ => []
  | output content _ => content.expressions

/-- The error of a statement whose name is taken. -/
def rejection? : Stmt → Option SemanticError
  | scalar name _ _ place => some ⟨.variableRedeclared name, place⟩
  | array name _ place => some ⟨.arrayRedeclared name, place⟩
  | output .. => none

theorem cause_of_rejection? {stmt : Stmt} {error : SemanticError}
    (h : stmt.rejection? = some error) :
    ∃ name, error.cause = .variableRedeclared name ∨ error.cause = .arrayRedeclared name := by
  cases stmt with
  | scalar name =>
    cases h
    exact ⟨name, .inl rfl⟩
  | array name =>
    cases h
    exact ⟨name, .inr rfl⟩
  | output => cases h

/-- What is wrong with a declaration whose value has a given type. -/
inductive Misfit : Stmt → ValueType → SemanticCause → Prop
  | mismatch {name : String} {type : TypeName} {value : Expr} {place : Location}
      {found : ValueType} (differs : found ≠ .ofTypeName type) :
      Misfit (scalar name type value place) found (.assignmentMismatch found (.ofTypeName type))
  | notArray {name : String} {value : Expr} {place : Location} {found : ValueType}
      (other : ∀ elements bracket, value ≠ .array elements bracket) :
      Misfit (array name (.values value) place) found .initializerNotArray

inductive Finds (symbols : SymbolTable) (stmt : Stmt) : List SemanticError → Prop
  | redeclared {error : SemanticError} (taken : stmt.Redeclares symbols)
      (rejection : stmt.rejection? = some error) : Finds symbols stmt [error]
  | inExpressions (free : ¬stmt.Redeclares symbols) :
      Finds symbols stmt (Expr.checkAll symbols stmt.expressions).errors
  | misfit {value : Expr} {cause : SemanticCause} (free : ¬stmt.Redeclares symbols)
      (only : stmt.expressions = [value]) (quiet : (value.check symbols).errors = [])
      (known : (value.check symbols).value ≠ .unknown)
      (misfit : stmt.Misfit (value.check symbols).value cause) :
      Finds symbols stmt [⟨cause, stmt.place⟩]

end Stmt

theorem Expr.errors_checkAll_singleton (symbols : SymbolTable) (e : Expr) :
    (checkAll symbols [e]).errors = (e.check symbols).errors := by
  simp [checkAll, Checked.andThen, Checked.clean]

theorem SymbolTable.errors_enter (symbols : SymbolTable) (name : String) (symbol : Symbol) :
    (symbols.enter name symbol).errors = [] := by
  unfold enter
  split <;> rfl

/-- What an array starts with is checked like the array as an expression. -/
theorem ArrayInit.errors_check_array (symbols : SymbolTable) (place bracket : Location)
    (elements : List Expr) :
    ((values (.array elements bracket)).check symbols place).errors =
      ((Expr.array elements bracket).check symbols).errors := by
  rw [check, Expr.check]
  generalize Expr.checkAll symbols elements = checked
  simp only [Checked.andThen]
  split <;> rfl

namespace Stmt

variable {symbols : SymbolTable}

theorem scalar_finds (symbols : SymbolTable) (name : String) (type : TypeName) (value : Expr)
    (place : Location) :
    (scalar name type value place).Finds symbols
      ((scalar name type value place).check symbols).errors := by
  have redeclares : (scalar name type value place).Redeclares symbols ↔ _ := redeclares_iff rfl
  have contained := value.check_contained symbols
  rw [check]
  split
  · next taken => exact .redeclared (redeclares.mpr taken) rfl
  · next free =>
    have free := mt redeclares.mp free
    simp only [Checked.andThen]
    split
    · next wrong =>
      obtain ⟨known, differs⟩ := wrong
      have quiet := not_not.mp (mt contained.silenced known)
      rw [quiet]
      exact .misfit free rfl quiet known (.mismatch differs)
    · rw [SymbolTable.errors_enter, List.append_nil, ← Expr.errors_checkAll_singleton]
      exact .inExpressions free

/-- An array that is not a redeclaration has the errors of what it starts with. -/
theorem errors_check_array {name : String} (free : ¬symbols.contains name = true)
    (init : ArrayInit) (place : Location) :
    ((array name init place).check symbols).errors = (init.check symbols place).errors := by
  rw [check, if_neg free]
  refine (congrArg (_ ++ ·) ?_).trans (List.append_nil _)
  dsimp only
  split
  · exact SymbolTable.errors_enter ..
  · rfl

theorem array_finds (symbols : SymbolTable) (name : String) (init : ArrayInit) (place : Location) :
    (array name init place).Finds symbols ((array name init place).check symbols).errors := by
  have redeclares : (array name init place).Redeclares symbols ↔ _ := redeclares_iff rfl
  by_cases taken : symbols.contains name = true
  · rw [check, if_pos taken]
    exact .redeclared (redeclares.mpr taken) rfl
  · have free := mt redeclares.mp taken
    rw [errors_check_array taken]
    cases init with
    | sized type size => exact .inExpressions free
    | values value =>
      by_cases literal : ∃ elements bracket, value = .array elements bracket
      · obtain ⟨elements, bracket, rfl⟩ := literal
        rw [ArrayInit.errors_check_array, ← Expr.errors_checkAll_singleton]
        exact .inExpressions free
      · simp only [not_exists] at literal
        have contained := value.check_contained symbols
        rw [ArrayInit.check]
        case x_1 => exact literal
        by_cases unknown : (value.check symbols).value = .unknown
        · simp only [Checked.andThen, if_pos unknown, Checked.clean, List.append_nil]
          rw [← Expr.errors_checkAll_singleton]
          exact .inExpressions free
        · have quiet := not_not.mp (mt contained.silenced unknown)
          simp only [Checked.andThen, if_neg unknown, Checked.faulty, quiet, List.nil_append]
          exact .misfit free rfl quiet unknown (.notArray literal)

theorem check_finds (symbols : SymbolTable) (stmt : Stmt) :
    stmt.Finds symbols (stmt.check symbols).errors := by
  cases stmt with
  | scalar name type value place => exact scalar_finds symbols name type value place
  | array name init place => exact array_finds symbols name init place
  | output content place =>
    have free : ¬(output content place).Redeclares symbols := by
      rintro ⟨name, declared, -⟩
      cases declared
    have errors : ((output content place).check symbols).errors =
        (Expr.checkAll symbols content.expressions).errors := List.append_nil _
    rw [errors]
    exact .inExpressions free

end Stmt

namespace SemanticCause

def types : SemanticCause → List ValueType
  | assignmentMismatch left right | arithmeticMismatch left right | comparisonMismatch left right =>
    [left, right]
  | mixedElements first => [first]
  | variableRedeclared _ | arrayRedeclared _ | initializerNotArray | undefined .. |
    arithmeticOnString => []

/-- The cause is about the value of a declaration as a whole. -/
def isMisfit : SemanticCause → Bool
  | assignmentMismatch .. | initializerNotArray => true
  | _ => false

/-- A cause with its names left out. A program may well name a variable `unknown`. -/
def unnamed : SemanticCause → SemanticCause
  | variableRedeclared _ => variableRedeclared ""
  | arrayRedeclared _ => arrayRedeclared ""
  | undefined _ similar => undefined "" (similar.map fun _ => "")
  | cause => cause

end SemanticCause

/-- A text stands in the message or in the suggestion of a diagnostic. -/
def Diagnostic.Prints (d : Diagnostic) (text : String) : Prop :=
  Text.occurs text.toList d.message.toList = true ∨
    Text.occurs text.toList d.suggestion.toList = true

/-- A text without the word `unknown`: it has no `k`, and all other words that the analysis prints
have none either. -/
def LacksUnknown (text : String) : Prop := 'k' ∉ text.toList

namespace LacksUnknown

variable {text more : String}

theorem append (h : LacksUnknown text) (hmore : LacksUnknown more) :
    LacksUnknown (text ++ more) := by
  rw [LacksUnknown, String.toList_append, List.mem_append, not_or]
  exact ⟨h, hmore⟩

theorem text_of_ne {type : ValueType} (known : .unknown ≠ type) : LacksUnknown type.text := by
  cases type with
  | unknown => exact absurd rfl known
  | _ => simp [LacksUnknown, ValueType.text]

theorem intercalate {separator : String} (h : LacksUnknown separator) {texts : List String}
    (others : ∀ text ∈ texts, LacksUnknown text) : LacksUnknown (separator.intercalate texts) := by
  induction texts with
  | nil => simp [LacksUnknown]
  | cons text rest ih =>
    obtain ⟨first, others⟩ := List.forall_mem_cons.mp others
    cases rest with
    | nil => simpa using first
    | cons next rest =>
      rw [String.intercalate_cons_cons]
      exact (first.append h).append (ih others)

/-- The question that offers names, without the names. -/
theorem didYouMean? (count : Nat) (otherwise : String) (h : LacksUnknown otherwise) :
    LacksUnknown ((Text.didYouMean? (List.replicate count "")).getD otherwise) := by
  match count with
  | 0 => exact h
  | 1 => simp [LacksUnknown, Text.didYouMean?]
  | count + 2 =>
    refine append (append (by simp [LacksUnknown]) (intercalate ?_ fun text member => ?_)) ?_
    · simp [LacksUnknown]
    · have quoted : text ∈ (List.replicate (count + 2) "").map fun name => "`" ++ name ++ "`" := member
      obtain ⟨name, among, rfl⟩ := List.mem_map.mp quoted
      rw [List.eq_of_mem_replicate among]
      simp [LacksUnknown]
    · simp [LacksUnknown]

theorem not_prints {d : Diagnostic} (message : LacksUnknown d.message)
    (suggestion : LacksUnknown d.suggestion) : ¬d.Prints ValueType.unknown.text := by
  have letter : 'k' ∈ ValueType.unknown.text.toList := by decide
  rw [Diagnostic.Prints, Text.occurs_eq_true_iff, Text.occurs_eq_true_iff]
  rintro (inside | inside)
  · exact message (inside.subset letter)
  · exact suggestion (inside.subset letter)

end LacksUnknown

namespace SemanticCause

variable {cause : SemanticCause}

-- The equations of `message` and `suggestion` are long in coming, so these are unfolded.
theorem lacksUnknown_message (known : .unknown ∉ cause.types) :
    LacksUnknown cause.unnamed.message := by
  unfold unnamed message
  cases cause with
  | assignmentMismatch left right | arithmeticMismatch left right | comparisonMismatch left right =>
    obtain ⟨hleft, hright⟩ : .unknown ≠ left ∧ .unknown ≠ right := by simpa [types] using known
    refine .append (.append (.append ?_ (.text_of_ne hleft)) ?_) (.text_of_ne hright) <;>
      simp [LacksUnknown]
  | _ => simp [LacksUnknown]

theorem lacksUnknown_suggestion (known : .unknown ∉ cause.types) :
    LacksUnknown cause.unnamed.suggestion := by
  unfold unnamed suggestion
  cases cause with
  | undefined name similar =>
    simp only [List.map_const']
    exact .didYouMean? _ _ (by simp [LacksUnknown])
  | mixedElements first =>
    have hfirst : .unknown ≠ first := by simpa [types] using known
    exact .append (by simp [LacksUnknown]) (.text_of_ne hfirst)
  | _ => simp [LacksUnknown]

end SemanticCause

def SemanticError.unnamed (error : SemanticError) : SemanticError :=
  ⟨error.cause.unnamed, error.location⟩

theorem SemanticError.OfNode.known {error : SemanticError} {e : Expr} (h : error.OfNode e) :
    .unknown ∉ error.cause.types := by
  cases h with
  | undefined | onString => exact List.not_mem_nil
  | arithmetic _ hleft hright | comparison _ hleft hright =>
    simp [SemanticCause.types, hleft.symm, hright.symm]
  | elements _ hfirst => simp [SemanticCause.types, hfirst.symm]

namespace Stmt

variable {symbols : SymbolTable} {stmt : Stmt} {errors : List SemanticError}

theorem Finds.known (h : stmt.Finds symbols errors) :
    ∀ error ∈ errors, .unknown ∉ error.cause.types := by
  cases h with
  | redeclared taken rejection =>
    intro error member
    obtain rfl := List.mem_singleton.mp member
    obtain ⟨name, same | same⟩ := cause_of_rejection? rejection <;> rw [same] <;>
      exact List.not_mem_nil
  | inExpressions free =>
    obtain ⟨blames, blamed⟩ := (Expr.checkAll_contained symbols stmt.expressions).blamed
    intro error member
    obtain ⟨node, ofNode⟩ := blamed.exists_ofNode error member
    exact ofNode.known
  | misfit free only quiet known misfit =>
    intro error member
    obtain rfl := List.mem_singleton.mp member
    cases misfit with
    | mismatch differs =>
      simp [SemanticCause.types, known.symm, (ValueType.ofTypeName_ne_unknown _).symm]
    | notArray other => exact List.not_mem_nil

/-- What is wrong with a value as a whole is said of one without errors that has a type. -/
theorem Finds.exists_value (h : stmt.Finds symbols errors) {error : SemanticError}
    (member : error ∈ errors) (misfit : error.cause.isMisfit = true) :
    ∃ value, stmt.expressions = [value] ∧ (value.check symbols).errors = [] ∧
      (value.check symbols).value ≠ .unknown := by
  cases h with
  | redeclared taken rejection =>
    obtain rfl := List.mem_singleton.mp member
    obtain ⟨name, same | same⟩ := cause_of_rejection? rejection <;> rw [same] at misfit <;>
      cases misfit
  | inExpressions free =>
    obtain ⟨blames, blamed⟩ := (Expr.checkAll_contained symbols stmt.expressions).blamed
    obtain ⟨node, ofNode⟩ := blamed.exists_ofNode error member
    cases ofNode <;> cases misfit
  | misfit free only quiet known => exact ⟨_, only, quiet, known⟩

theorem errors_checkAll_cons (symbols : SymbolTable) (stmt : Stmt) (rest : List Stmt) :
    (checkAll symbols (stmt :: rest)).errors =
      (stmt.check symbols).errors ++ (checkAll (stmt.check symbols).symbols rest).errors := by
  rw [checkAll]
  simp only [Checked.andThen, Checked.clean, List.append_nil]

/-- An error in a run is one of a statement, with the symbols that it is reached with. -/
theorem exists_check_of_mem_errors {error : SemanticError} {stmts : List Stmt}
    (member : error ∈ (checkAll symbols stmts).errors) :
    ∃ stmt ∈ stmts, ∃ reached, error ∈ (stmt.check reached).errors := by
  induction stmts generalizing symbols with
  | nil => cases member
  | cons stmt rest ih =>
    rw [errors_checkAll_cons] at member
    rcases List.mem_append.mp member with inFirst | inRest
    · exact ⟨stmt, List.mem_cons_self, symbols, inFirst⟩
    · obtain ⟨other, among, reached, found⟩ := ih inRest
      exact ⟨other, List.mem_cons_of_mem stmt among, reached, found⟩

end Stmt

/-- Errors do not cascade. Those of an expression blame nodes that do not lie below each other, in
the order of evaluation; they leave it without a type, and nothing else does but a name that is
stored without one. What is wrong with the value of a declaration as a whole is only said if nothing
else is wrong with it. And apart from the names in it, no text of a diagnostic has the word for a
type that is unknown. -/
theorem errors_do_not_cascade (symbols : SymbolTable) :
    (∀ e : Expr, let checked := e.check symbols
      (∃ blames : List Blame, blames.map Blame.error = checked.errors ∧
        (∀ blame ∈ blames, ∃ node, e.at? blame.path = some node ∧ blame.error.OfNode node) ∧
        (blames.map Blame.path).Nodup ∧
        (∀ blame ∈ blames, ∀ other ∈ blames,
          blame.path <+: other.path → blame.path = other.path) ∧
        blames.Pairwise fun blame later => blame.path.Precedes later.path) ∧
      (checked.errors ≠ [] → checked.value = .unknown) ∧
      (checked.errors = [] → checked.value = .unknown → ∃ name ∈ e.mentioned, ∃ symbol,
        symbols.get? name = some symbol ∧ symbol.type = .unknown)) ∧
    (∀ stmt : Stmt, ∀ error ∈ (stmt.check symbols).errors, error.cause.isMisfit = true →
      ∃ value, stmt.expressions = [value] ∧ (value.check symbols).errors = [] ∧
        (value.check symbols).value ≠ .unknown) ∧
    ∀ (sink : Sink) (program : Program), ∃ (errors : List SemanticError)
        (entries : List (String × Symbol)),
      (sink.analyse symbols program).2.records = sink.records ++
        (errors.map SemanticError.diagnostic ++ entries.map unusedWarning).map sink.stamp ∧
      (∀ error ∈ errors, ¬error.unnamed.diagnostic.Prints ValueType.unknown.text) ∧
      ∀ entry ∈ entries, ¬(unusedWarning ("", entry.2)).Prints ValueType.unknown.text := by
  refine ⟨fun e => ?_, fun stmt error member misfit => ?_, fun sink program => ?_⟩
  · obtain ⟨⟨blames, blamed⟩, silenced, tainted⟩ := e.check_contained symbols
    exact ⟨⟨blames, blamed.errors_eq, blamed.nodes, blamed.nodup, blamed.eq_of_isPrefix,
      blamed.ordered⟩, silenced, tainted⟩
  · exact (stmt.check_finds symbols).exists_value member misfit
  · let analysis := Analysis.ofProgram symbols program
    refine ⟨analysis.errors, analysis.unused, ?_, fun error member => ?_, fun entry _ => ?_⟩
    · rw [Sink.records_analyse, List.map_append]
    · obtain ⟨stmt, -, reached, found⟩ := Stmt.exists_check_of_mem_errors member
      have known := (stmt.check_finds reached).known error found
      exact LacksUnknown.not_prints (SemanticCause.lacksUnknown_message known)
        (SemanticCause.lacksUnknown_suggestion known)
    · exact LacksUnknown.not_prints (by simp [LacksUnknown, unusedWarning, Diagnostic.pointing])
        (by simp [LacksUnknown, unusedWarning, Diagnostic.pointing])

end Quill
