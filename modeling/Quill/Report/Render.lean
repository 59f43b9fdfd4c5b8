import Quill.Report.Excerpt
import Quill.Report.Failure
import Quill.Report.Sink
import Quill.Text.Lines

/-!
Reports for a reader: each diagnostic with its place, an excerpt of the source and a suggestion, and
a closing line when there are errors.
-/
namespace Quill

open Text

/-- The word that a diagnostic opens with. Its colour tells errors of spelling and grammar from
those of meaning. -/
def DiagnosticKind.label : DiagnosticKind → Span
  | warning => ⟨.strong .yellow, "warning".toList⟩
  | semantic => ⟨.strong .yellow, "error".toList⟩
  | lexical | syntactic => ⟨.strong .red, "error".toList⟩

namespace Diagnostic

def headSpans (d : Diagnostic) : List Span :=
  [d.kind.label, ⟨.bolded, [':']⟩, .plain (" " ++ d.message ++ "\n"),
    .plain "  ", ⟨.strong .blue, "-->".toList⟩, .plain (" " ++ d.place ++ "\n")]

def excerptSpans (lines : List (List Char)) (d : Diagnostic) : List Span :=
  match Excerpt.of? lines d with
  | some excerpt => excerpt.spans
  | none => []

def suggestionSpans (d : Diagnostic) : List Span :=
  if d.suggestion = "" then []
  else
    [⟨.strong .green, "help:".toList⟩, .plain " ",
      ⟨.coloured .green, d.suggestion.toList⟩, .plain "\n"]

/-- The block of one diagnostic in a report on a source of given lines. -/
def spans (lines : List (List Char)) (d : Diagnostic) : List Span :=
  d.headSpans ++ d.excerptSpans lines ++ d.suggestionSpans

def render (lines : List (List Char)) (colour : Bool) (d : Diagnostic) : String :=
  paint colour (d.spans lines)

/-- The rendering, unless it has more carets than a text can hold. -/
def render? (lines : List (List Char)) (colour : Bool) (d : Diagnostic) : Option String :=
  if (Excerpt.of? lines d).all Excerpt.fits then some (d.render lines colour) else none

end Diagnostic

namespace Sink

/-- The line that counts the errors, if there are any. A source without a label is the input. -/
def closingSpans (sink : Sink) : List Span :=
  if sink.errorCount = 0 then []
  else
    [.plain "\n", ⟨.strong .red, "error".toList⟩,
      .plain (": " ++ (Failure.notCompiled (sink.file.getD "input") sink.errorCount).message ++
        "\n")]

/-- The blocks of all diagnostics with empty lines between them, and the closing line. -/
def spans (lines : List (List Char)) (sink : Sink) : List Span :=
  [.plain "\n"].intercalate (sink.records.map (Diagnostic.spans lines)) ++ sink.closingSpans

def render (lines : List (List Char)) (colour : Bool) (sink : Sink) : String :=
  paint colour (sink.spans lines)

/-- The report, unless one of the blocks is missing. -/
def render? (lines : List (List Char)) (colour : Bool) (sink : Sink) : Option String := do
  let blocks ← sink.records.mapM (Diagnostic.render? lines colour)
  return "\n".intercalate blocks ++ paint colour sink.closingSpans

end Sink

end Quill
