import Quill.Proofs.Typing.Expression
import Quill.Proofs.Typing.Usage

/-!
Errors in an expression do not spread. Each blames a node of its own; no node that is blamed lies
below another, and they come in the order of evaluation, which goes down a tree from left to right
(`Path.Precedes`). An error leaves the type `unknown`, and a node over it has nothing to say
(`Expr.Concludes`); without an error an expression has the type `unknown` only if it reads a name
whose entry has it.
-/
namespace Quill

/-- The way down a tree to a node: at each node on it, the index of the part where it goes on. -/
abbrev Path := List Nat

/-- A path goes to an earlier part than another one, at a node that lies on both. Neither of their
nodes lies below the other then. -/
inductive Path.Precedes : Path → Path → Prop
  | parts {i j : Nat} {path other : Path} (earlier : i < j) : Precedes (i :: path) (j :: other)
  | inPart {i : Nat} {path other : Path} (h : Precedes path other) :
      Precedes (i :: path) (i :: other)

namespace Path.Precedes

variable {path other : Path}

theorem not_isPrefix (h : Precedes path other) : ¬ path <+: other ∧ ¬ other <+: path := by
  induction h with
  | parts earlier =>
    simp only [List.cons_prefix_cons, not_and]
    exact ⟨fun same => by omega, fun same => by omega⟩
  | inPart _ ih => simpa only [List.cons_prefix_cons, true_and] using ih

theorem ne (h : Precedes path other) : path ≠ other := by
  rintro rfl
  exact h.not_isPrefix.1 (List.prefix_refl path)

end Path.Precedes

namespace Expr

def parts : Expr → List Expr
  | literal .. | identifier .. => []
  | binary left _ right _ => [left, right]
  | array elements _ => elements

/-- The expression at the end of a path. -/
def at? (e : Expr) : Path → Option Expr
  | [] => some e
  | i :: path => e.parts[i]?.bind fun part => part.at? path

/-- The expression at the end of a path that starts with the index of one of several. -/
def atPart? (es : List Expr) : Path → Option Expr
  | [] => none
  | i :: path => es[i]?.bind fun e => e.at? path

theorem mentionedAll_parts_subset (e : Expr) : mentionedAll e.parts ⊆ e.mentioned := by
  cases e <;> simp [parts, mentionedAll, mentioned]

end Expr

/-- An error that a node of an expression has been blamed for. The types that it speaks of are
known. -/
inductive SemanticError.OfNode : SemanticError → Expr → Prop
  | undefined {name : String} {similar : List String} {place : Location} :
      OfNode ⟨.undefined name similar, place⟩ (.identifier name place)
  | onString {left right : Expr} {operator : Operator} {place : Location}
      (computes : operator.isArithmetic = true) :
      OfNode ⟨.arithmeticOnString, place⟩ (.binary left operator right place)
  | arithmetic {left right : Expr} {operator : Operator} {place : Location} {l r : ValueType}
      (computes : operator.isArithmetic = true) (hleft : l ≠ .unknown) (hright : r ≠ .unknown) :
      OfNode ⟨.arithmeticMismatch l r, place⟩ (.binary left operator right place)
  | comparison {left right : Expr} {operator : Operator} {place : Location} {l r : ValueType}
      (compares : operator.isArithmetic = false) (hleft : l ≠ .unknown) (hright : r ≠ .unknown) :
      OfNode ⟨.comparisonMismatch l r, place⟩ (.binary left operator right place)
  | elements {elements : List Expr} {place : Location} {first : ValueType}
      (nonempty : elements ≠ []) (hfirst : first ≠ .unknown) :
      OfNode ⟨.mixedElements first, place⟩ (.array elements place)

/-- What is wrong with an operation on operands of known types is an error of its node. -/
theorem SemanticError.OfNode.of_operationType {left right : Expr} {operator : Operator}
    {place : Location} {l r : ValueType} {cause : SemanticCause}
    (hleft : l ≠ .unknown) (hright : r ≠ .unknown)
    (h : operationType operator l r = .error cause) :
    OfNode ⟨cause, place⟩ (.binary left operator right place) := by
  have known : ¬(l = .unknown ∨ r = .unknown) := not_or.mpr ⟨hleft, hright⟩
  rw [operationType, if_neg known] at h
  split at h
  · next computes =>
    unfold arithmeticType at h
    split at h
    · split at h
      · cases h
      · cases h
        exact .onString computes
    · split at h
      · cases h
      · split at h
        · cases h
        · cases h
          exact .arithmetic computes hleft hright
  · next compares =>
    unfold comparisonType at h
    split at h
    · cases h
    · cases h
      exact .comparison (Bool.eq_false_iff.mpr compares) hleft hright

/-- An error, and the way to the node that it blames. -/
structure Blame where
  path : Path
  error : SemanticError

/-- Errors that each blame a node of their own: none lies below another, and the nodes come in the
order of evaluation. -/
structure Blamed (find : Path → Option Expr) (errors : List SemanticError) (blames : List Blame) :
    Prop where
  errors_eq : blames.map Blame.error = errors
  ordered : blames.Pairwise fun blame later => blame.path.Precedes later.path
  nodes : ∀ blame ∈ blames, ∃ node, find blame.path = some node ∧ blame.error.OfNode node

namespace Blame

/-- The blame in the part of a node with an index. -/
def inPart (i : Nat) (blame : Blame) : Blame := ⟨i :: blame.path, blame.error⟩

/-- The blame when one more part stands in front. -/
def next : Blame → Blame
  | ⟨[], error⟩ => ⟨[], error⟩
  | ⟨i :: path, error⟩ => ⟨(i + 1) :: path, error⟩

theorem precedes_next {blame later : Blame} (h : blame.path.Precedes later.path) :
    blame.next.path.Precedes later.next.path := by
  obtain ⟨path, error⟩ := blame
  obtain ⟨other, _⟩ := later
  cases h with
  | parts earlier => exact .parts (Nat.succ_lt_succ earlier)
  | inPart h => exact .inPart h

end Blame

namespace Blamed

variable {e : Expr} {rest : List Expr} {errors more : List SemanticError}
  {blames later : List Blame}

theorem nil (find : Path → Option Expr) : Blamed find [] [] := ⟨rfl, .nil, by simp⟩

/-- One error, at the node itself. -/
theorem own {error : SemanticError} (h : error.OfNode e) : Blamed e.at? [error] [⟨[], error⟩] := by
  refine ⟨rfl, List.pairwise_singleton .., fun blame member => ?_⟩
  obtain rfl := List.mem_singleton.mp member
  exact ⟨e, rfl, h⟩

/-- Errors in the parts of a node are errors in the node. -/
theorem of_parts (h : Blamed (Expr.atPart? e.parts) errors blames) :
    Blamed e.at? errors blames := by
  refine ⟨h.errors_eq, h.ordered, fun blame member => ?_⟩
  obtain ⟨node, found, ofNode⟩ := h.nodes blame member
  obtain ⟨path, error⟩ := blame
  cases path with
  | nil => cases found
  | cons i path => exact ⟨node, found, ofNode⟩

theorem exists_ofNode {find : Path → Option Expr} (h : Blamed find errors blames) :
    ∀ error ∈ errors, ∃ node, error.OfNode node := by
  rw [← h.errors_eq, List.forall_mem_map]
  intro blame member
  obtain ⟨node, -, ofNode⟩ := h.nodes blame member
  exact ⟨node, ofNode⟩

theorem nodup {find : Path → Option Expr} (h : Blamed find errors blames) :
    (blames.map Blame.path).Nodup :=
  List.pairwise_map.mpr (h.ordered.imp Path.Precedes.ne)

/-- No node that is blamed lies below another one. -/
theorem eq_of_isPrefix {find : Path → Option Expr} (h : Blamed find errors blames) :
    ∀ blame ∈ blames, ∀ other ∈ blames, blame.path <+: other.path → blame.path = other.path := by
  refine @List.Pairwise.forall_of_forall_of_flip _ blames _ (fun _ _ _ => rfl) ?_ ?_
  · exact h.ordered.imp fun precedes below => absurd below precedes.not_isPrefix.1
  · exact h.ordered.imp fun precedes above => absurd above precedes.not_isPrefix.2

/-- Errors in the first of several expressions, then errors in the others. -/
theorem cons (hfirst : Blamed e.at? errors blames)
    (hrest : Blamed (Expr.atPart? rest) more later) :
    Blamed (Expr.atPart? (e :: rest)) (errors ++ more)
      (blames.map (.inPart 0) ++ later.map .next) := by
  -- The empty path leads to no one of several expressions.
  have inLater : ∀ blame ∈ later, ∃ i path, blame.path = i :: path := by
    intro blame member
    obtain ⟨node, found, -⟩ := hrest.nodes blame member
    cases same : blame.path with
    | nil =>
      rw [same] at found
      cases found
    | cons i path => exact ⟨i, path, rfl⟩
  constructor
  case errors_eq =>
    have sameError : ∀ blame : Blame, blame.next.error = blame.error := by
      rintro ⟨_ | _, error⟩ <;> rfl
    rw [List.map_append, List.map_map, List.map_map, ← hfirst.errors_eq, ← hrest.errors_eq]
    exact congrArg _ (List.map_congr_left fun blame _ => sameError blame)
  case ordered =>
    refine List.pairwise_append.mpr ⟨?_, ?_, ?_⟩
    · exact List.pairwise_map.mpr (hfirst.ordered.imp .inPart)
    · exact List.pairwise_map.mpr (hrest.ordered.imp Blame.precedes_next)
    · intro first inFirst second inSecond
      obtain ⟨blame, -, rfl⟩ := List.mem_map.mp inFirst
      obtain ⟨other, member, rfl⟩ := List.mem_map.mp inSecond
      obtain ⟨i, path, same⟩ := inLater other member
      obtain ⟨_, error⟩ := other
      subst same
      exact .parts i.succ_pos
  case nodes =>
    intro blame member
    rcases List.mem_append.mp member with inFirst | inRest
    · obtain ⟨blame, among, rfl⟩ := List.mem_map.mp inFirst
      exact hfirst.nodes blame among
    · obtain ⟨⟨path, error⟩, among, rfl⟩ := List.mem_map.mp inRest
      obtain ⟨i, path, rfl⟩ := inLater _ among
      exact hrest.nodes _ among

end Blamed

/-- One of several names has an entry with the type `unknown`. -/
def SymbolTable.Taints (symbols : SymbolTable) (names : List String) : Prop :=
  ∃ name ∈ names, ∃ symbol, symbols.get? name = some symbol ∧ symbol.type = .unknown

namespace SymbolTable

variable {symbols : SymbolTable} {names more : List String}

theorem taints_iff_environment : symbols.Taints names ↔
    ∃ name ∈ names, ∃ declared, symbols.environment.lookup name = some declared ∧
      declared.type = .unknown := by
  simp only [Taints, lookup_environment, Option.map_eq_some_iff, exists_exists_and_eq_and]
  rfl

theorem environment_markAll (symbols : SymbolTable) (names : List String) :
    (symbols.markAll names).environment = symbols.environment := by
  induction names generalizing symbols with
  | nil => rfl
  | cons name rest ih => exact (ih _).trans (symbols.environment_markUsed name)

/-- Names that are read keep their types. -/
theorem taints_markAll (symbols : SymbolTable) (read names : List String) :
    (symbols.markAll read).Taints names ↔ symbols.Taints names := by
  rw [taints_iff_environment, environment_markAll, ← taints_iff_environment]

theorem Taints.mono (h : symbols.Taints names) (among : names ⊆ more) : symbols.Taints more := by
  obtain ⟨name, member, tainted⟩ := h
  exact ⟨name, among member, tainted⟩

end SymbolTable

/-- What a node comes to, once its parts have been checked. -/
inductive Expr.Concludes (symbols : SymbolTable) (parts : Checked (List ValueType)) :
    Expr → ValueType → List SemanticError → Prop
  /-- A part has no type, and the node says nothing more. -/
  | silent {e : Expr} (unknown : .unknown ∈ parts.value) :
      Concludes symbols parts e .unknown parts.errors
  | typed {e : Expr} {type : ValueType} (known : .unknown ∉ parts.value)
      (proper : type ≠ .unknown) : Concludes symbols parts e type parts.errors
  | faulty {e : Expr} {error : SemanticError} (known : .unknown ∉ parts.value)
      (own : error.OfNode e) : Concludes symbols parts e .unknown (parts.errors ++ [error])
  /-- A name has the type of its entry, whatever that is. -/
  | stored {name : String} {place : Location} {symbol : Symbol}
      (found : symbols.get? name = some symbol) :
      Concludes symbols parts (.identifier name place) symbol.type []

namespace Expr

theorem binary_concludes (symbols : SymbolTable) (left : Expr) (operator : Operator) (right : Expr)
    (place : Location) :
    let e := binary left operator right place
    Concludes symbols (checkAll symbols e.parts) e (e.check symbols).value
      (e.check symbols).errors := by
  generalize first_eq : left.check symbols = first
  generalize second_eq : right.check first.symbols = second
  generalize outcome_eq : operationType operator first.value second.value = outcome
  have parts_eq : checkAll symbols [left, right] =
      ⟨[first.value, second.value], second.symbols, first.errors ++ second.errors⟩ := by
    simp [checkAll, Checked.andThen, Checked.clean, first_eq, second_eq]
  show Concludes symbols (checkAll symbols [left, right]) _ _ _
  rw [parts_eq, check]
  simp only [Checked.andThen, first_eq, second_eq, outcome_eq, ← List.append_assoc]
  by_cases unknown : .unknown ∈ [first.value, second.value]
  · have operand : first.value = .unknown ∨ second.value = .unknown := by
      simpa [eq_comm] using unknown
    rw [operationType, if_pos operand] at outcome_eq
    subst outcome_eq
    simp only [Checked.ofType, Checked.clean, List.append_nil]
    exact .silent unknown
  · obtain ⟨hleft, hright⟩ : first.value ≠ .unknown ∧ second.value ≠ .unknown := by
      simpa [eq_comm] using unknown
    cases outcome with
    | ok type =>
      simp only [Checked.ofType, Checked.clean, List.append_nil]
      exact .typed unknown ((operationType_eq_ok_iff hleft hright).mp outcome_eq).ne_unknown
    | error cause => exact .faulty unknown (.of_operationType hleft hright outcome_eq)

theorem length_checkAll (symbols : SymbolTable) (es : List Expr) :
    (checkAll symbols es).value.length = es.length := by
  induction es generalizing symbols with
  | nil => simp [checkAll, Checked.clean]
  | cons e rest ih => simp [checkAll, Checked.andThen, Checked.clean, ih]

theorem array_concludes (symbols : SymbolTable) (elements : List Expr) (place : Location) :
    let e := array elements place
    Concludes symbols (checkAll symbols e.parts) e (e.check symbols).value
      (e.check symbols).errors := by
  have sameLength := length_checkAll symbols elements
  show Concludes symbols (checkAll symbols elements) _ _ _
  rw [check]
  generalize checkAll symbols elements = parts at sameLength ⊢
  obtain ⟨types, after, errors⟩ := parts
  cases types with
  | nil =>
    simp only [Checked.andThen, elementType?, Checked.clean, List.append_nil]
    exact .typed List.not_mem_nil (by decide)
  | cons first rest =>
    have nonempty : elements ≠ [] := by
      rintro rfl
      cases sameLength
    rcases elementType?_cases first rest with
      ⟨unknown, eq⟩ | ⟨known, -, eq⟩ | ⟨known, -, eq⟩
    · simp only [Checked.andThen, eq, Checked.ofType, Checked.clean, List.append_nil]
      exact .silent unknown
    · have proper : (Checked.ofType after place (.ok first)).value ≠ .unknown :=
        fun same => known (List.mem_cons.mpr (.inl same.symm))
      simp only [Checked.andThen, eq, if_neg proper]
      simp only [Checked.ofType, Checked.clean, List.append_nil]
      exact .typed known (by decide)
    · have knownFirst : first ≠ .unknown := fun same => known (by simp [same])
      simp only [Checked.andThen, eq, Checked.ofType, Checked.faulty, Checked.clean,
        List.append_nil]
      exact .faulty known (.elements nonempty knownFirst)

theorem check_concludes (symbols : SymbolTable) (e : Expr) :
    Concludes symbols (checkAll symbols e.parts) e (e.check symbols).value
      (e.check symbols).errors := by
  cases e with
  | literal value place =>
    rw [check]
    exact .typed (by simp [parts, checkAll, Checked.clean]) value.type_ne_unknown
  | identifier name place =>
    rw [check]
    split
    · next found => exact .stored found
    · exact .faulty (by simp [parts, checkAll, Checked.clean]) .undefined
  | binary left operator right place => exact binary_concludes symbols left operator right place
  | array elements place => exact array_concludes symbols elements place

end Expr

namespace Checked

/-- The errors of an expression stay apart, and leave it without a type. Without an error, only a
name that has been stored without a type takes the type away. -/
structure Contained (symbols : SymbolTable) (e : Expr) (type : ValueType)
    (errors : List SemanticError) : Prop where
  blamed : ∃ blames, Blamed e.at? errors blames
  silenced : errors ≠ [] → type = .unknown
  tainted : errors = [] → type = .unknown → symbols.Taints e.mentioned

structure ContainedAll (symbols : SymbolTable) (es : List Expr) (types : List ValueType)
    (errors : List SemanticError) : Prop where
  blamed : ∃ blames, Blamed (Expr.atPart? es) errors blames
  silenced : errors ≠ [] → .unknown ∈ types
  tainted : errors = [] → .unknown ∈ types → symbols.Taints (Expr.mentionedAll es)

variable {symbols : SymbolTable} {e : Expr} {rest : List Expr} {type : ValueType}
  {types : List ValueType} {errors more : List SemanticError}

theorem ContainedAll.nil : ContainedAll symbols [] [] [] := by
  refine ⟨⟨[], .nil _⟩, fun noisy => absurd rfl noisy, fun _ member => ?_⟩
  cases member

theorem ContainedAll.cons (hfirst : Contained symbols e type errors)
    (hrest : ContainedAll symbols rest types more) :
    ContainedAll symbols (e :: rest) (type :: types) (errors ++ more) := by
  obtain ⟨blames, blamed⟩ := hfirst.blamed
  obtain ⟨later, blamedLater⟩ := hrest.blamed
  refine ⟨⟨_, blamed.cons blamedLater⟩, ?_, ?_⟩
  · intro noisy
    by_cases quiet : errors = []
    · exact List.mem_cons_of_mem _ (hrest.silenced (by simpa [quiet] using noisy))
    · simp [hfirst.silenced quiet]
  · intro quiet unknown
    obtain ⟨quietFirst, quietRest⟩ := List.append_eq_nil_iff.mp quiet
    rw [Expr.mentionedAll]
    rcases List.mem_cons.mp unknown with inFirst | inRest
    · exact (hfirst.tainted quietFirst inFirst.symm).mono (List.subset_append_left ..)
    · exact (hrest.tainted quietRest inRest).mono (List.subset_append_right ..)

/-- What a node says over contained parts is contained. -/
theorem Contained.of_concludes {parts : Checked (List ValueType)}
    (h : e.Concludes symbols parts type errors)
    (inParts : ContainedAll symbols e.parts parts.value parts.errors) :
    Contained symbols e type errors := by
  obtain ⟨blames, blamed⟩ := inParts.blamed
  cases h with
  | silent unknown =>
    refine ⟨⟨blames, blamed.of_parts⟩, fun _ => rfl, fun quiet _ => ?_⟩
    exact (inParts.tainted quiet unknown).mono e.mentionedAll_parts_subset
  | typed known proper =>
    have quiet := not_not.mp (mt inParts.silenced known)
    exact ⟨⟨blames, blamed.of_parts⟩, fun noisy => absurd quiet noisy,
      fun _ unknown => absurd unknown proper⟩
  | faulty known own =>
    -- All parts have types, so they have no errors, and the node is the only one that is blamed.
    have quiet := not_not.mp (mt inParts.silenced known)
    rw [quiet]
    exact ⟨⟨_, .own own⟩, fun _ => rfl, fun silent => absurd silent (List.cons_ne_nil _ _)⟩
  | @stored name _ symbol found =>
    refine ⟨⟨[], .nil _⟩, fun noisy => absurd rfl noisy, fun _ unknown => ?_⟩
    exact ⟨name, List.mem_singleton_self name, symbol, found, unknown⟩

end Checked

namespace Expr

/-- An expression in front of others. They are checked with the symbols that it leaves, in which the
names have the same types. -/
theorem cons_contained {symbols : SymbolTable} {e : Expr} {rest : List Expr}
    (hfirst : Checked.Contained symbols e (e.check symbols).value (e.check symbols).errors)
    (hrest : Checked.ContainedAll (e.check symbols).symbols rest
      (checkAll (e.check symbols).symbols rest).value
      (checkAll (e.check symbols).symbols rest).errors) :
    Checked.ContainedAll symbols (e :: rest) (checkAll symbols (e :: rest)).value
      (checkAll symbols (e :: rest)).errors := by
  have tainted := hrest.tainted
  rw [symbols_check, SymbolTable.taints_markAll, ← symbols_check] at tainted
  rw [checkAll]
  simp only [Checked.andThen, Checked.clean, List.append_nil]
  exact .cons hfirst ⟨hrest.blamed, hrest.silenced, tainted⟩

mutual

theorem check_contained (symbols : SymbolTable) :
    (e : Expr) → Checked.Contained symbols e (e.check symbols).value (e.check symbols).errors
  | literal _ _ => .of_concludes (check_concludes symbols _) .nil
  | identifier _ _ => .of_concludes (check_concludes symbols _) .nil
  | binary left _ right _ =>
    have hright := check_contained (left.check symbols).symbols right
    have operands := cons_contained (check_contained symbols left) (cons_contained hright .nil)
    .of_concludes (check_concludes symbols _) operands
  | array elements _ =>
    .of_concludes (check_concludes symbols _) (checkAll_contained symbols elements)

theorem checkAll_contained (symbols : SymbolTable) :
    (es : List Expr) →
      Checked.ContainedAll symbols es (checkAll symbols es).value (checkAll symbols es).errors
  | [] => .nil
  | e :: rest =>
    cons_contained (check_contained symbols e)
      (checkAll_contained (e.check symbols).symbols rest)

end

end Expr

end Quill
