import Mathlib.Data.List.Basic
import Quill.Proofs.Compilation.Layout
import Quill.Proofs.Number.Numeral

/-!
Reading a dump back. Names and texts stand in it as they are, with the quotes and brackets that may
be part of them. So a line is told by what it begins with and taken apart from its ends, and the
first line of a node tells how many nodes follow it. Trees without floats, of which the dump shows
six places only, and without line feeds in names and texts have one dump only if they are one tree.
-/
namespace Quill

namespace Text

/-- A text in front of a mark that it does not have is told from what follows. -/
theorem span_at_mark {front rest : List Char} {mark : Char} (absent : mark ∉ front) :
    (front ++ mark :: rest).takeWhile (· ≠ mark) = front ∧
      (front ++ mark :: rest).dropWhile (· ≠ mark) = mark :: rest := by
  refine span_of_stop (fun c member => ?_) (by simp)
  have other : c ≠ mark := fun same => absent (same ▸ member)
  simpa using other

/-- The first place of a mark parts a list in one way. -/
theorem append_cons_inj {before front behind back : List Char} {mark : Char}
    (notBefore : mark ∉ before) (notFront : mark ∉ front)
    (h : before ++ mark :: behind = front ++ mark :: back) : before = front ∧ behind = back := by
  obtain ⟨left, right⟩ := @span_at_mark _ behind _ notBefore
  obtain ⟨left', right'⟩ := @span_at_mark _ back _ notFront
  rw [h] at left right
  exact ⟨left.symm.trans left', (List.cons.inj (right.symm.trans right')).2⟩

/-- So does its last place. -/
theorem append_cons_inj_last {before front behind back : List Char} {mark : Char}
    (notBehind : mark ∉ behind) (notBack : mark ∉ back)
    (h : before ++ mark :: behind = front ++ mark :: back) : before = front ∧ behind = back := by
  have reversed : behind.reverse ++ mark :: before.reverse =
      back.reverse ++ mark :: front.reverse := by
    simpa using congrArg List.reverse h
  obtain ⟨last, first⟩ :=
    append_cons_inj (by simpa using notBehind) (by simpa using notBack) reversed
  exact ⟨List.reverse_inj.mp first, List.reverse_inj.mp last⟩

def Begins (lead text : String) : Prop := lead.toList <+: text.toList

namespace Begins

variable {lead text : String}

theorem refl (text : String) : Begins text text := List.prefix_refl _

theorem append (h : Begins lead text) (more : String) : Begins lead (text ++ more) := by
  rw [Begins, String.toList_append]
  exact h.trans (List.prefix_append ..)

end Begins

/-- A line that is not empty, does not begin with a blank and has no line feed. -/
structure Lined (text : String) : Prop where
  feedless : '\n' ∉ text.toList
  opens : text.toList.head?.any (· ≠ ' ') = true

/-- What follows the opening of a line makes no difference but for line feeds. -/
theorem Lined.append {text more : String} (h : Lined text) (feedless : '\n' ∉ more.toList) :
    Lined (text ++ more) := by
  obtain ⟨c, first, -⟩ := (Option.any_eq_true _ _).mp h.opens
  constructor
  · simp [h.feedless, feedless]
  · rw [String.toList_append, List.head?_append, first, Option.some_or, ← first]
    exact h.opens

theorem feed_not_mem_toString_int (n : Int) : '\n' ∉ (toString n).toList := by
  intro member
  rcases Numeral.isDigit_or_of_mem_toString member with digit | minus
  · cases digit
  · cases minus

/-- Texts that are put together at a fragment can be taken apart again if its first character is not
in front of it. -/
theorem append_inj_of_head {fragment front before back behind : String} {mark : Char}
    (starts : fragment.toList.head? = some mark) (notFront : mark ∉ front.toList)
    (notBefore : mark ∉ before.toList)
    (h : front ++ fragment ++ back = before ++ fragment ++ behind) :
    front = before ∧ back = behind := by
  obtain ⟨rest, parts⟩ := List.head?_eq_some_iff.mp starts
  have texts := congrArg String.toList h
  simp only [String.toList_append, parts, List.append_assoc, List.cons_append] at texts
  obtain ⟨first, last⟩ := append_cons_inj notFront notBefore texts
  exact ⟨String.toList_inj.mp first, String.toList_inj.mp (List.append_cancel_left last)⟩

/-- So they can if its last character is not behind it. -/
theorem append_inj_of_getLast {fragment front before back behind : String} {mark : Char}
    (ends : fragment.toList.getLast? = some mark) (notBack : mark ∉ back.toList)
    (notBehind : mark ∉ behind.toList)
    (h : front ++ fragment ++ back = before ++ fragment ++ behind) :
    front = before ∧ back = behind := by
  obtain ⟨rest, parts⟩ := List.getLast?_eq_some_iff.mp ends
  have texts := congrArg String.toList h
  simp only [String.toList_append, parts, List.append_assoc, List.singleton_append] at texts
  rw [← List.append_assoc, ← List.append_assoc] at texts
  obtain ⟨first, last⟩ := append_cons_inj_last notBack notBehind texts
  exact ⟨String.toList_inj.mp (List.append_cancel_right first), String.toList_inj.mp last⟩

end Text

open Text

namespace DumpLine

/-- The characters of a line without its end. -/
def chars (line : DumpLine) : List Char :=
  List.replicate (2 * line.depth) ' ' ++ line.text.toList

theorem feed_not_mem_chars {line : DumpLine} (h : Lined line.text) : '\n' ∉ line.chars := by
  simp [chars, h.feedless]

/-- The blanks in front of a line tell its depth. -/
theorem chars_inj {line other : DumpLine} (h : Lined line.text) (h' : Lined other.text)
    (same : line.chars = other.chars) : line = other := by
  have blanks : ∀ {line : DumpLine}, Lined line.text →
      line.chars.takeWhile (· = ' ') = List.replicate (2 * line.depth) ' ' ∧
        line.chars.dropWhile (· = ' ') = line.text.toList := by
    intro line h
    refine span_of_stop (fun c member => ?_) fun c first => ?_
    · simp [List.eq_of_mem_replicate member]
    · have opens := h.opens
      rw [Option.mem_def.mp first] at opens
      simpa using opens
  obtain ⟨front, text⟩ := blanks h
  obtain ⟨front', text'⟩ := blanks h'
  rw [same] at front text
  have depths : 2 * line.depth = 2 * other.depth := by
    simpa using congrArg List.length (front.symm.trans front')
  have texts := String.toList_inj.mp (text.symm.trans text')
  cases line
  cases other
  simp only [mk.injEq]
  exact ⟨Nat.eq_of_mul_eq_mul_left (by decide) depths, texts⟩

/-- The text of a dump as its first line, a line feed and the rest. -/
theorem toList_join_cons (line : DumpLine) (lines : List DumpLine) :
    (String.join ((line :: lines).map render)).toList =
      line.chars ++ '\n' :: (String.join (lines.map render)).toList := by
  simp [String.join_cons, render, chars]

/-- Lines are determined by the text that they make. -/
theorem join_render_inj {lines others : List DumpLine} (h : ∀ line ∈ lines, Lined line.text)
    (h' : ∀ line ∈ others, Lined line.text)
    (same : String.join (lines.map render) = String.join (others.map render)) : lines = others := by
  have texts := congrArg String.toList same
  clear same
  induction lines generalizing others with
  | nil =>
    cases others with
    | nil => rfl
    | cons other others =>
      rw [toList_join_cons] at texts
      simp [String.join_nil] at texts
  | cons line lines ih =>
    rw [toList_join_cons] at texts
    cases others with
    | nil => simp [String.join_nil] at texts
    | cons other others =>
      rw [List.forall_mem_cons] at h h'
      rw [toList_join_cons] at texts
      obtain ⟨first, rest⟩ :=
        append_cons_inj (feed_not_mem_chars h.1) (feed_not_mem_chars h'.1) texts
      rw [chars_inj h.1 h'.1 first, ih h.2 h'.2 rest]

end DumpLine

/-- No float, whose value the dump rounds, and no line feed. -/
def Literal.Legible : Literal → Prop
  | integer _ => True
  | float _ => False
  | string text => '\n' ∉ text.toList
  | bool _ => True

namespace Expr

mutual

/-- No float is in an expression, and no line feed in a name or a text of it. -/
def Legible : Expr → Prop
  | literal value _ => value.Legible
  | identifier name _ => '\n' ∉ name.toList
  | binary left _ right _ => Legible left ∧ Legible right
  | array elements _ => AllLegible elements

def AllLegible : List Expr → Prop
  | [] => True
  | e :: rest => Legible e ∧ AllLegible rest

end

def headText : Expr → String
  | literal value _ => value.dumpText
  | identifier name _ => "IDENTIFIER '" ++ name ++ "'"
  | binary _ operator _ _ => "BINARY_OP " ++ operator.kind.name
  | array elements _ => "ARRAY_LITERAL [" ++ toString elements.length ++ " elements]"

def children : Expr → List Expr
  | literal .. => []
  | identifier .. => []
  | binary left _ right _ => [left, right]
  | array elements _ => elements

theorem dump_eq (depth : Nat) (e : Expr) :
    e.dump depth = ⟨depth, e.headText⟩ :: dumpAll (depth + 1) e.children := by
  cases e with
  | literal | identifier | array => rfl
  | binary left operator right =>
    rw [children, dumpAll, dumpAll, dumpAll, List.append_nil]
    rfl

end Expr

/-- The forms of the nodes that a value is made of. -/
inductive NodeForm where
  | integer | float | string | bool | identifier | operation | array
  deriving DecidableEq

namespace NodeForm

/-- What the line of a node begins with. -/
def lead : NodeForm → String
  | integer => "INT_LITERAL "
  | float => "FLOAT_LITERAL "
  | string => "STRING_LITERAL \""
  | bool => "BOOL_LITERAL "
  | identifier => "IDENTIFIER '"
  | operation => "BINARY_OP "
  | array => "ARRAY_LITERAL ["

/-- No line of one form begins like one of another form. -/
theorem eq_of_begins {form other : NodeForm} {text : String} (h : Begins form.lead text)
    (h' : Begins other.lead text) : form = other := by
  have firsts := List.prefix_or_prefix_of_prefix h h'
  revert firsts
  cases form <;> cases other <;> decide

theorem lined_lead (form : NodeForm) : Lined form.lead := by
  cases form <;> exact ⟨by decide, by decide⟩

end NodeForm

def Literal.form : Literal → NodeForm
  | integer _ => .integer
  | float _ => .float
  | string _ => .string
  | bool _ => .bool

namespace Expr

def form : Expr → NodeForm
  | literal value _ => value.form
  | identifier .. => .identifier
  | binary .. => .operation
  | array .. => .array

theorem begins_headText (e : Expr) : Begins e.form.lead e.headText := by
  cases e with
  | literal value =>
    cases value with
    | integer | float | bool => exact .append (.refl _) _
    | string => exact .append (.append (.refl _) _) _
  | binary => exact .append (.refl _) _
  | identifier | array => exact .append (.append (.refl _) _) _

end Expr

/-- A kind can be told from its name. -/
theorem TokenKind.ofName?_name (kind : TokenKind) : ofName? kind.name = some kind := by
  cases kind <;> decide

theorem TokenKind.feed_not_mem_name (kind : TokenKind) : '\n' ∉ kind.name.toList := by
  cases kind <;> decide

/-- Operators and types are dumped by the names of their tokens. -/
theorem TokenKind.name_inj {kind other : TokenKind} (h : kind.name = other.name) :
    kind = other := by
  have same := congrArg ofName? h
  rw [ofName?_name, ofName?_name] at same
  exact Option.some.inj same

theorem Operator.name_inj {operator other : Operator} (h : operator.kind.name = other.kind.name) :
    operator = other := by
  have same := congrArg ofKind? (TokenKind.name_inj h)
  rw [ofKind?_eq_some_iff.mpr rfl, ofKind?_eq_some_iff.mpr rfl] at same
  exact Option.some.inj same

theorem TypeName.name_inj {type other : TypeName} (h : type.kind.name = other.kind.name) :
    type = other := by
  have same := congrArg ofKind? (TokenKind.name_inj h)
  rw [ofKind?_eq_some_iff.mpr rfl, ofKind?_eq_some_iff.mpr rfl] at same
  exact Option.some.inj same

theorem Literal.dumpText_inj {value other : Literal} (h : value.Legible)
    (forms : value.form = other.form) (same : value.dumpText = other.dumpText) : value = other := by
  cases value with
  | integer n =>
    cases other with
    | integer m => rw [Numeral.toString_int_inj ((String.append_right_inj _).mp same)]
    | float | string | bool => cases forms
  | float => cases h
  | string text =>
    cases other with
    | string more =>
      rw [(String.append_right_inj _).mp ((String.append_left_inj _).mp same)]
    | integer | float | bool => cases forms
  | bool b =>
    cases other with
    | bool c =>
      have texts := (String.append_right_inj _).mp same
      cases b <;> cases c <;> simp at texts ⊢
    | integer | float | string => cases forms

namespace Expr

/-- Two nodes with the same line, whatever is below them. -/
inductive Alike : Expr → Expr → Prop
  | literal (value : Literal) {place elsewhere : Location} :
    Alike (literal value place) (literal value elsewhere)
  | identifier (name : String) {place elsewhere : Location} :
    Alike (identifier name place) (identifier name elsewhere)
  | binary (operator : Operator) {left right before behind : Expr} {place elsewhere : Location} :
    Alike (binary left operator right place) (binary before operator behind elsewhere)
  | array {elements others : List Expr} {place elsewhere : Location}
    (same : elements.length = others.length) : Alike (array elements place) (array others elsewhere)

/-- Equal lines are lines of nodes with equal contents. The other node need not be legible: what it
shows is what this one shows. -/
theorem alike_of_headText {e other : Expr} (h : e.Legible) (same : e.headText = other.headText) :
    Alike e other := by
  have forms := NodeForm.eq_of_begins e.begins_headText (same ▸ other.begins_headText)
  cases e with
  | literal value place =>
    cases other with
    | literal =>
      obtain rfl := Literal.dumpText_inj h forms same
      exact .literal value
    | identifier | binary | array => cases value <;> cases forms
  | identifier name place =>
    cases other with
    | identifier =>
      obtain rfl := (String.append_right_inj _).mp ((String.append_left_inj _).mp same)
      exact .identifier name
    | literal value => cases value <;> cases forms
    | binary | array => cases forms
  | binary left operator right place =>
    cases other with
    | binary =>
      obtain rfl := Operator.name_inj ((String.append_right_inj _).mp same)
      exact .binary operator
    | literal value => cases value <;> cases forms
    | identifier | array => cases forms
  | array elements place =>
    cases other with
    | array =>
      have lengths := (String.append_right_inj _).mp ((String.append_left_inj _).mp same)
      exact .array (Numeral.toString_inj lengths)
    | literal value => cases value <;> cases forms
    | identifier | binary => cases forms

mutual

/-- The lines of an expression end where those of no other expression go on, and they are the lines
of one expression only. -/
theorem dump_append_inj {depth : Nat} {rest more : List DumpLine} :
    ∀ {e other : Expr}, e.Legible → e.dump depth ++ rest = other.dump depth ++ more →
      e.unplaced = other.unplaced ∧ rest = more := by
  intro e other h same
  have lines := same
  rw [dump_eq, dump_eq, List.cons_append, List.cons_append] at lines
  obtain ⟨first, behind⟩ := List.cons.inj lines
  cases alike_of_headText h (DumpLine.mk.inj first).2 with
  | literal | identifier => exact ⟨rfl, behind⟩
  | @binary operator left right before after =>
    simp only [children, dumpAll, List.append_assoc, List.append_nil] at behind
    obtain ⟨onLeft, behind⟩ := dump_append_inj h.1 behind
    obtain ⟨onRight, behind⟩ := dump_append_inj h.2 behind
    rw [unplaced, unplaced, onLeft, onRight]
    exact ⟨rfl, behind⟩
  | @array elements others _ _ lengths =>
    obtain ⟨all, behind⟩ := dumpAll_append_inj h lengths behind
    rw [unplaced, unplaced, all]
    exact ⟨rfl, behind⟩

/-- With any lines behind on both sides, so that one node after the other can be taken off. The
number of elements stands in the line above them. -/
theorem dumpAll_append_inj {depth : Nat} {rest more : List DumpLine} :
    ∀ {elements others : List Expr}, AllLegible elements → elements.length = others.length →
      dumpAll depth elements ++ rest = dumpAll depth others ++ more →
      unplacedAll elements = unplacedAll others ∧ rest = more := by
  intro elements others h lengths same
  match elements, others with
  | [], [] => exact ⟨rfl, same⟩
  | e :: elements, other :: others =>
    rw [dumpAll, dumpAll, List.append_assoc, List.append_assoc] at same
    obtain ⟨first, behind⟩ := dump_append_inj h.1 same
    obtain ⟨all, behind⟩ := dumpAll_append_inj h.2 (Nat.succ.inj lengths) behind
    rw [unplacedAll, unplacedAll, first, all]
    exact ⟨rfl, behind⟩

end

end Expr

namespace Interpolation

theorem dumpContent_append_inj {depth : Nat} {rest more : List DumpLine}
    {parts others : List String} {elements expressions : List Expr} (h : Expr.AllLegible elements)
    (partCount : parts.length = others.length) (count : elements.length = expressions.length)
    (same : dumpContent depth parts elements ++ rest =
      dumpContent depth others expressions ++ more) :
    parts = others ∧ Expr.unplacedAll elements = Expr.unplacedAll expressions ∧ rest = more := by
  induction parts generalizing others elements expressions with
  | nil =>
    obtain rfl := List.length_eq_zero_iff.mp partCount.symm
    obtain ⟨all, behind⟩ := Expr.dumpAll_append_inj h count same
    exact ⟨rfl, all, behind⟩
  | cons part parts ih =>
    cases others with
    | nil => cases partCount
    | cons other others =>
      rw [dumpContent, dumpContent, List.cons_append, List.cons_append] at same
      obtain ⟨first, behind⟩ := List.cons.inj same
      obtain rfl := (String.append_right_inj _).mp
        ((String.append_left_inj _).mp (DumpLine.mk.inj first).2)
      cases elements with
      | nil =>
        obtain rfl := List.length_eq_zero_iff.mp count.symm
        obtain ⟨texts, -, behind⟩ := ih h (Nat.succ.inj partCount) rfl behind
        exact ⟨congrArg (part :: ·) texts, rfl, behind⟩
      | cons e elements =>
        cases expressions with
        | nil => cases count
        | cons other expressions =>
          simp only [List.head?_cons, Option.map_some, Option.getD_some, List.tail_cons,
            List.append_assoc] at behind
          obtain ⟨node, behind⟩ := Expr.dump_append_inj h.1 behind
          obtain ⟨texts, all, behind⟩ :=
            ih h.2 (Nat.succ.inj partCount) (Nat.succ.inj count) behind
          rw [texts, Expr.unplacedAll, Expr.unplacedAll, node, all]
          exact ⟨rfl, rfl, behind⟩

/-- No line feed in a part, and no float or line feed in an expression. -/
structure Legible (content : Interpolation) : Prop where
  parts : ∀ part ∈ content.parts, '\n' ∉ part.toList
  expressions : Expr.AllLegible content.expressions

theorem dump_append_inj {depth : Nat} {rest more : List DumpLine} {content other : Interpolation}
    (h : content.Legible) (same : content.dump depth ++ rest = other.dump depth ++ more) :
    content.unplaced = other.unplaced ∧ rest = more := by
  rw [dump, dump, List.cons_append, List.cons_append] at same
  obtain ⟨first, behind⟩ := List.cons.inj same
  have header := (String.append_left_inj _).mp (DumpLine.mk.inj first).2
  rw [String.append_assoc, String.append_assoc, String.append_assoc, String.append_assoc] at header
  have blankless : ∀ n : Nat, ' ' ∉ (toString n).toList := Numeral.not_mem_toString rfl
  rw [String.append_right_inj, ← String.append_assoc, ← String.append_assoc] at header
  obtain ⟨partCount, count⟩ := append_inj_of_head (by decide) (blankless _) (blankless _) header
  obtain ⟨texts, all, behind⟩ := dumpContent_append_inj h.expressions
    (Numeral.toString_inj partCount) (Numeral.toString_inj count) behind
  rw [unplaced, unplaced, texts, all]
  exact ⟨rfl, behind⟩

end Interpolation

inductive StmtForm where
  | scalar | array | output
  deriving DecidableEq

namespace StmtForm

/-- What the first line of a statement begins with. -/
def lead : StmtForm → String
  | scalar => "VAR_DECL '"
  | array => "ARRAY_DECL '"
  | output => "STDOUT"

theorem eq_of_begins {form other : StmtForm} {text : String} (h : Begins form.lead text)
    (h' : Begins other.lead text) : form = other := by
  have firsts := List.prefix_or_prefix_of_prefix h h'
  revert firsts
  cases form <;> cases other <;> decide

theorem lined_lead (form : StmtForm) : Lined form.lead := by
  cases form <;> exact ⟨by decide, by decide⟩

end StmtForm

namespace Stmt

def Legible : Stmt → Prop
  | scalar name _ value _ => '\n' ∉ name.toList ∧ value.Legible
  | array name (.values value) _ => '\n' ∉ name.toList ∧ value.Legible
  | array name (.sized ..) _ => '\n' ∉ name.toList
  | output content _ => content.Legible

def form : Stmt → StmtForm
  | scalar .. => .scalar
  | array .. => .array
  | output .. => .output

def headText : Stmt → String
  | scalar name type _ _ => "VAR_DECL '" ++ name ++ "' type=" ++ type.kind.name
  | array name (.values _) _ => "ARRAY_DECL '" ++ name ++ "'"
  | array name (.sized type size) _ =>
    "ARRAY_DECL '" ++ name ++ "' type=" ++ type.kind.name ++ " size=" ++ toString size
  | output .. => "STDOUT"

def tailLines (depth : Nat) : Stmt → List DumpLine
  | scalar _ _ value _ => value.dump (depth + 1)
  | array _ (.values value) _ => value.dump (depth + 1)
  | array _ (.sized ..) _ => []
  | output content _ => content.dump (depth + 1)

theorem dump_eq (depth : Nat) (stmt : Stmt) :
    stmt.dump depth = ⟨depth, stmt.headText⟩ :: stmt.tailLines depth := by
  cases stmt with
  | scalar | output => rfl
  | array name init => cases init <;> rfl

theorem begins_headText (stmt : Stmt) : Begins stmt.form.lead stmt.headText := by
  cases stmt with
  | scalar => exact .append (.append (.append (.refl _) _) _) _
  | array name init =>
    cases init with
    | values => exact .append (.append (.refl _) _) _
    | sized => exact .append (.append (.append (.append (.append (.refl _) _) _) _) _) _
  | output => exact .refl _

/-- Names and types are told apart by the last equals sign. -/
theorem typed_inj {lead name text : String} {type other : TypeName}
    (h : lead ++ name ++ "' type=" ++ type.kind.name =
      lead ++ text ++ "' type=" ++ other.kind.name) :
    name = text ∧ type = other := by
  have noEquals : ∀ type : TypeName, '=' ∉ type.kind.name.toList := by
    intro type
    cases type <;> decide
  obtain ⟨names, types⟩ := append_inj_of_getLast (by decide) (noEquals _) (noEquals _) h
  exact ⟨(String.append_right_inj _).mp names, TypeName.name_inj types⟩

/-- A line that a quote ends is none that a numeral ends. -/
theorem append_quote_ne (text front : String) (n : Nat) : text ++ "'" ≠ front ++ toString n := by
  intro same
  have ends := congrArg List.getLast? (congrArg String.toList same)
  have written := Numeral.digits_toString n
  rw [String.toList_append, String.toList_append, List.getLast?_append_of_ne_nil _ (by decide),
    List.getLast?_append_of_ne_nil _ written.nonempty] at ends
  exact Numeral.not_mem_toString rfl n (List.mem_of_getLast? ends.symm)

theorem dump_append_inj {depth : Nat} {rest more : List DumpLine} {stmt other : Stmt}
    (h : stmt.Legible) (same : stmt.dump depth ++ rest = other.dump depth ++ more) :
    stmt.unplaced = other.unplaced ∧ rest = more := by
  rw [dump_eq, dump_eq, List.cons_append, List.cons_append] at same
  obtain ⟨first, behind⟩ := List.cons.inj same
  have head := (DumpLine.mk.inj first).2
  have forms := StmtForm.eq_of_begins stmt.begins_headText (head ▸ other.begins_headText)
  cases stmt with
  | scalar name type value =>
    cases other with
    | scalar text kind =>
      obtain ⟨rfl, rfl⟩ := typed_inj head
      obtain ⟨values, behind⟩ := Expr.dump_append_inj h.2 behind
      exact ⟨congrArg (scalar name type · .start) values, behind⟩
    | array | output => cases forms
  | array name init =>
    cases other with
    | array text start =>
      cases init with
      | values value =>
        cases start with
        | values =>
          obtain rfl := (String.append_right_inj _).mp ((String.append_left_inj _).mp head)
          obtain ⟨values, behind⟩ := Expr.dump_append_inj h.2 behind
          exact ⟨congrArg (fun value => array name (.values value) .start) values, behind⟩
        | sized type size => exact absurd head (append_quote_ne _ _ size)
      | sized type size =>
        cases start with
        | values => exact absurd head.symm (append_quote_ne _ _ size)
        | sized =>
          have noEquals : ∀ n : Nat, '=' ∉ (toString n).toList := Numeral.not_mem_toString rfl
          obtain ⟨typed, sizes⟩ := append_inj_of_getLast (by decide) (noEquals _) (noEquals _) head
          obtain ⟨rfl, rfl⟩ := typed_inj typed
          obtain rfl := Numeral.toString_inj sizes
          exact ⟨rfl, behind⟩
    | scalar | output => cases forms
  | output content =>
    cases other with
    | output =>
      obtain ⟨contents, behind⟩ := Interpolation.dump_append_inj h behind
      exact ⟨congrArg (output · .start) contents, behind⟩
    | scalar | array => cases forms

end Stmt

/-! The lines of a tree that is legible are lines. -/

namespace Expr

theorem lined_headText {e : Expr} (h : e.Legible) : Lined e.headText := by
  have lead := e.form.lined_lead
  cases e with
  | literal value =>
    cases value with
    | integer n => exact lead.append (feed_not_mem_toString_int n)
    | float => cases h
    | string text => exact (lead.append h).append (by decide)
    | bool b => exact lead.append (by cases b <;> decide)
  | identifier name => exact (lead.append h).append (by decide)
  | binary left operator => exact lead.append (TokenKind.feed_not_mem_name _)
  | array elements => exact (lead.append (Numeral.not_mem_toString rfl _)).append (by decide)

mutual

theorem lined_dump (depth : Nat) :
    ∀ {e : Expr}, e.Legible → ∀ line ∈ e.dump depth, Lined line.text := by
  intro e h
  rw [dump_eq, List.forall_mem_cons]
  refine ⟨lined_headText h, ?_⟩
  cases e with
  | literal | identifier => exact List.forall_mem_nil _
  | binary left operator right =>
    rw [children, dumpAll, dumpAll, dumpAll, List.append_nil, List.forall_mem_append]
    exact ⟨lined_dump _ h.1, lined_dump _ h.2⟩
  | array elements => exact lined_dumpAll _ h

theorem lined_dumpAll (depth : Nat) :
    ∀ {elements : List Expr}, AllLegible elements →
      ∀ line ∈ dumpAll depth elements, Lined line.text := by
  intro elements h
  match elements with
  | [] => exact List.forall_mem_nil _
  | e :: elements =>
    rw [dumpAll, List.forall_mem_append]
    exact ⟨lined_dump _ h.1, lined_dumpAll _ h.2⟩

end

end Expr

namespace Interpolation

theorem lined_dumpContent (depth : Nat) {parts : List String} {expressions : List Expr}
    (h : ∀ part ∈ parts, '\n' ∉ part.toList) (h' : Expr.AllLegible expressions) :
    ∀ line ∈ dumpContent depth parts expressions, Lined line.text := by
  induction parts generalizing expressions with
  | nil => exact Expr.lined_dumpAll depth h'
  | cons part parts ih =>
    rw [List.forall_mem_cons] at h
    have lead : Lined "TEXT_PART \"" := ⟨by decide, by decide⟩
    rw [dumpContent, List.forall_mem_cons, List.forall_mem_append]
    refine ⟨(lead.append h.1).append (by decide), ?_⟩
    match expressions with
    | [] => exact ⟨List.forall_mem_nil _, ih h.2 h'⟩
    | e :: expressions => exact ⟨Expr.lined_dump depth h'.1, ih h.2 h'.2⟩

theorem lined_dump (depth : Nat) {content : Interpolation} (h : content.Legible) :
    ∀ line ∈ content.dump depth, Lined line.text := by
  have lead : Lined "STRING_INTERP [" := ⟨by decide, by decide⟩
  rw [dump, List.forall_mem_cons]
  refine ⟨?_, lined_dumpContent _ h.parts h.expressions⟩
  exact (((lead.append (Numeral.not_mem_toString rfl _)).append (by decide)).append
    (Numeral.not_mem_toString rfl _)).append (by decide)

end Interpolation

namespace Stmt

theorem lined_headText {stmt : Stmt} (h : stmt.Legible) : Lined stmt.headText := by
  have lead := stmt.form.lined_lead
  cases stmt with
  | scalar name type =>
    exact ((lead.append h.1).append (by decide)).append (TokenKind.feed_not_mem_name _)
  | array name init =>
    cases init with
    | values => exact (lead.append h.1).append (by decide)
    | sized type size =>
      exact ((((lead.append h).append (by decide)).append (TokenKind.feed_not_mem_name _)).append
        (by decide)).append (Numeral.not_mem_toString rfl _)
  | output => exact lead

theorem lined_dump (depth : Nat) {stmt : Stmt} (h : stmt.Legible) :
    ∀ line ∈ stmt.dump depth, Lined line.text := by
  rw [dump_eq, List.forall_mem_cons]
  refine ⟨lined_headText h, ?_⟩
  cases stmt with
  | scalar => exact Expr.lined_dump _ h.2
  | array name init =>
    cases init with
    | values => exact Expr.lined_dump _ h.2
    | sized => exact List.forall_mem_nil _
  | output => exact Interpolation.lined_dump _ h

end Stmt

namespace Program

def Legible (program : Program) : Prop := ∀ stmt ∈ program.statements, stmt.Legible

theorem lined_dumpLines {program : Program} (h : program.Legible) :
    ∀ line ∈ program.dumpLines, Lined line.text := by
  have lead : Lined "PROGRAM (" := ⟨by decide, by decide⟩
  rw [dumpLines, List.forall_mem_cons, List.forall_mem_flatMap]
  exact ⟨(lead.append (Numeral.not_mem_toString rfl _)).append (by decide), fun stmt member =>
    Stmt.lined_dump _ (h stmt member)⟩

/-- The number of statements stands in the first line of the dump. -/
theorem flatMap_dump_inj {depth : Nat} {stmts others : List Stmt} (h : ∀ stmt ∈ stmts, stmt.Legible)
    (count : stmts.length = others.length)
    (same : stmts.flatMap (Stmt.dump depth) = others.flatMap (Stmt.dump depth)) :
    stmts.map Stmt.unplaced = others.map Stmt.unplaced := by
  induction stmts generalizing others with
  | nil => rw [List.length_eq_zero_iff.mp count.symm]
  | cons stmt stmts ih =>
    cases others with
    | nil => cases count
    | cons other others =>
      rw [List.forall_mem_cons] at h
      rw [List.flatMap_cons, List.flatMap_cons] at same
      obtain ⟨first, behind⟩ := Stmt.dump_append_inj h.1 same
      rw [List.map_cons, List.map_cons, first, ih h.2 (Nat.succ.inj count) behind]

/-- The dump of a program determines it but for the places. -/
theorem dump_eq_iff {program other : Program} (h : program.Legible) (h' : other.Legible) :
    program.dump = other.dump ↔ program.unplaced = other.unplaced := by
  constructor
  · intro same
    have lines := DumpLine.join_render_inj (lined_dumpLines h) (lined_dumpLines h') same
    obtain ⟨first, behind⟩ := List.cons.inj lines
    have counts := (String.append_right_inj _).mp
      ((String.append_left_inj _).mp (DumpLine.mk.inj first).2)
    have statements := flatMap_dump_inj h (Numeral.toString_inj counts) behind
    rw [unplaced, unplaced, statements]
  · intro same
    rw [← dump_unplaced program, ← dump_unplaced other, same]

/-- The line of the array is that of a sized one but for a quote at its end. -/
def mimic : Program :=
  .ofStatements [.array "xs' type=INTEGER size=4" (.values (.identifier "ys" ⟨1, 31⟩)) ⟨1, 1⟩,
    .output ⟨["\"]"], [.literal (.string "' \"") ⟨2, 10⟩], ⟨2, 8⟩⟩ ⟨2, 1⟩]

def mimicked : Program :=
  .ofStatements [.array "xs" (.sized .int 4) ⟨1, 1⟩,
    .output ⟨["\"]"], [.literal (.string "' \"") ⟨2, 10⟩], ⟨2, 8⟩⟩ ⟨2, 1⟩]

theorem dump_mimic :
    mimic.Legible ∧ mimicked.Legible ∧
      (mimic.dump = mimicked.dump ↔ mimic.unplaced = mimicked.unplaced) ∧
      mimic.dump ≠ mimicked.dump := by
  have text : '\n' ∉ "' \"".toList := by decide
  have output :
      Stmt.Legible (.output ⟨["\"]"], [.literal (.string "' \"") ⟨2, 10⟩], ⟨2, 8⟩⟩ ⟨2, 1⟩) :=
    ⟨by decide, text, trivial⟩
  have name : '\n' ∉ "xs' type=INTEGER size=4".toList := by decide
  have value : '\n' ∉ "ys".toList := by decide
  have sized : '\n' ∉ "xs".toList := by decide
  have first : mimic.Legible :=
    List.forall_mem_cons.mpr ⟨⟨name, value⟩, List.forall_mem_singleton.mpr output⟩
  have second : mimicked.Legible :=
    List.forall_mem_cons.mpr ⟨sized, List.forall_mem_singleton.mpr output⟩
  have same := dump_eq_iff first second
  refine ⟨first, second, same, fun dumps => ?_⟩
  have arrays := (List.cons.inj (congrArg Program.statements (same.mp dumps))).1
  exact absurd (Stmt.array.inj arrays).1 (by decide)

end Program

end Quill
