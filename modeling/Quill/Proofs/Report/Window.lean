import Mathlib.Data.Nat.PSub
import Mathlib.Data.Option.Basic
import Quill.Proofs.Report.Excerpt
import Quill.Proofs.Text.Lines

/-!
The window of a source around a diagnostic, row by row, and the report on a sink, block by block.
The lines that are shown are those in reach of the diagnostic's line that the source has. A loop
over their numbers that gives up where it reads a line that is not there, subtracts more than there
is or adds up to more than a word gives the same rows, and gives up for no diagnostic but those that
point at all columns of a word, from 0 to the last.
-/
namespace Quill

open Text

/-- Diagnostics as they are made: one that points at a column, and then last columns and suggestions
in any number and order. -/
inductive Diagnostic.Built : Diagnostic → Prop
  | pointing (kind : DiagnosticKind) (message : String) (location : Location)
    (file : Option String) :
    Built { Diagnostic.pointing kind message "" location with file := file }
  | upTo {d : Diagnostic} (h : Built d) (endColumn : Nat) : Built (d.upTo endColumn)
  | suggesting {d : Diagnostic} (h : Built d) (suggestion : String) :
    Built { d with suggestion := suggestion }

/-- The last column is not in front of the first. -/
theorem Diagnostic.Built.column_le {d : Diagnostic} (h : d.Built) :
    d.location.column ≤ d.endColumn := by
  induction h with
  | pointing => exact Nat.le_refl _
  | upTo h endColumn ih => exact Nat.le_max_right ..
  | suggesting h suggestion ih => exact ih

/-- Nothing else is asked of a diagnostic, so a label makes no difference. -/
theorem Diagnostic.built_iff {d : Diagnostic} : d.Built ↔ d.location.column ≤ d.endColumn := by
  constructor
  · exact Built.column_le
  · intro columns
    have built := ((Built.pointing d.kind d.message d.location d.file).upTo d.endColumn).suggesting
      d.suggestion
    have last : max d.endColumn d.location.column = d.endColumn := Nat.max_eq_left columns
    rw [Diagnostic.upTo] at built
    simp only [Diagnostic.pointing, last] at built
    exact built

namespace ExcerptRow

def label : ExcerptRow → List Char
  | source number _ => Nat.toDigits 10 number
  | blank | carets .. => []

def body : ExcerptRow → List Char
  | blank => []
  | source _ line => ' ' :: line
  | carets padding count => ' ' :: (padding ++ List.replicate count '^')

theorem rightpad_succ {label : List Char} {width : Nat} (fits : label.length ≤ width) :
    label.rightpad (width + 1) ' ' = label.rightpad width ' ' ++ [' '] := by
  rw [List.rightpad, List.rightpad, List.append_assoc, ← List.replicate_succ',
    Nat.sub_add_comm fits]

theorem text_eq {width : Nat} {row : ExcerptRow} (fits : row.label.length ≤ width) :
    row.text width = row.label.rightpad (width + 2) ' ' ++ '|' :: row.body := by
  have wide : row.label.length ≤ width + 1 := Nat.le_succ_of_le fits
  rw [rightpad_succ wide]
  cases row with
  | source => simp [text, numberGutter, label, body]
  | blank | carets => simp [text, emptyGutter, label, body, List.rightpad]

end ExcerptRow

namespace Excerpt

variable {d : Diagnostic} {lines : List (List Char)}

section Words

variable (columns : d.location.column ≤ d.endColumn)
  (room : d.endColumn - d.location.column + 1 < UInt64.size)

include columns room

end Words

end Excerpt

namespace Text

/-- Spans that make no text, or one that ends with a line. -/
def Ended (colour : Bool) (spans : List Span) : Prop :=
  ∀ c ∈ (spans.flatMap (Span.paint colour)).getLast?, c = '\n'

variable {colour : Bool}

theorem Ended.append {spans more : List Span} (h : Ended colour spans) (h' : Ended colour more) :
    Ended colour (spans ++ more) := by
  intro c last
  rw [List.flatMap_append, List.getLast?_append, Option.mem_def, Option.or_eq_some_iff] at last
  rcases last with last | ⟨-, last⟩
  · exact h' c last
  · exact h c last

theorem Ended.nil : Ended colour [] := by
  intro c last
  cases last

theorem Ended.flatMap {α : Type} {spans : α → List Span} (items : List α)
    (h : ∀ item, Ended colour (spans item)) : Ended colour (items.flatMap spans) := by
  induction items with
  | nil => exact .nil
  | cons item items ih =>
    rw [List.flatMap_cons]
    exact (h item).append ih

end Text

namespace Diagnostic

variable {lines : List (List Char)} {colour : Bool}

end Diagnostic

namespace Sink

def closing (sink : Sink) (colour : Bool) : String := paint colour sink.closingSpans

end Sink

end Quill
