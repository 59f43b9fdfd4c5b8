import Quill.Report.Diagnostic
import Quill.Text.Styled

/-!
Excerpts: the lines of source around the place of a diagnostic, with a row of carets under the
columns that it points at. A gutter on the left holds the line numbers.

Numbers of lines and columns have no bound here. The one sum that machine words have no room for is
the number of carets under all columns of a word, from 0 on. It wraps around, as in a build without
checks for overflow; a build with checks stops there. No text is longer than `longestText`, and the
memory for shorter ones does not run out.
-/
namespace Quill

open Text

/-- A row of an excerpt, without its gutter. -/
inductive ExcerptRow where
  | blank
  | source (number : Nat) (text : List Char)
  | carets (padding : List Char) (count : Nat)
  deriving DecidableEq, Repr

/-- The number of bytes that a text may have, the greatest signed word. -/
def longestText : Nat := UInt64.size / 2 - 1

namespace ExcerptRow

def emptyGutter (width : Nat) : Span :=
  ⟨.coloured .blue, List.replicate (width + 1) ' ' ++ [' ', '|']⟩

/-- The gutter of a source line: its number, filled up on the right. -/
def numberGutter (width number : Nat) : Span :=
  ⟨.coloured .blue, (Nat.toDigits 10 number).rightpad (width + 1) ' ' ++ [' ', '|', ' ']⟩

/-- A row with its gutter and line end, where line numbers have up to `width` digits. -/
def spans (width : Nat) : ExcerptRow → List Span
  | blank => [emptyGutter width, .plain "\n"]
  | source number text => [numberGutter width number, ⟨.plain, text⟩, .plain "\n"]
  | carets padding count =>
    [emptyGutter width, .plain " ", ⟨.plain, padding⟩,
      ⟨.strong .red, List.replicate count '^'⟩, .plain "\n"]

/-- Whether there is a text of as many carets as the row has. -/
def fits : ExcerptRow → Bool
  | carets _ count => count ≤ longestText
  | blank | source .. => true

end ExcerptRow

/-- What stands before the carets: a blank for each character of the line in front of the column,
and a tab for a tab, so that the carets stand below their characters however wide a tab is. -/
def caretPadding (line : List Char) (column : Nat) : List Char :=
  (line.take (column - 1)).map fun c => if c = '\t' then '\t' else ' '

/-- The number of carets, as a word: one for each column from the first to the last. A last column
that is no word is counted without a limit. -/
def Diagnostic.caretCount (d : Diagnostic) : Nat :=
  if d.endColumn < UInt64.size then
    (d.endColumn.toUInt64 - d.location.column.toUInt64 + 1).toNat
  else d.endColumn - d.location.column + 1

/-- The sum of words is the number of columns where it has room. -/
theorem Diagnostic.caretCount_eq {d : Diagnostic} (ordered : d.location.column ≤ d.endColumn)
    (room : d.endColumn < UInt64.size → d.endColumn - d.location.column + 1 < UInt64.size) :
    d.caretCount = d.endColumn - d.location.column + 1 := by
  unfold caretCount
  split
  · next word =>
    have last : d.endColumn.toUInt64.toNat = d.endColumn := UInt64.toNat_ofNat_of_lt' word
    have first : d.location.column.toUInt64.toNat = d.location.column :=
      UInt64.toNat_ofNat_of_lt' (Nat.lt_of_le_of_lt ordered word)
    have le : d.location.column.toUInt64 ≤ d.endColumn.toUInt64 := by
      rwa [UInt64.le_iff_toNat_le, first, last]
    rw [UInt64.toNat_add, UInt64.toNat_sub_of_le _ _ le, first, last]
    exact Nat.mod_eq_of_lt (room word)
  · rfl

/-- The rows of a line that may be the one that a diagnostic points at. -/
def ExcerptRow.ofLine (d : Diagnostic) (number : Nat) (line : List Char) : List ExcerptRow :=
  source number line ::
    if number = d.location.line then [carets (caretPadding line d.location.column) d.caretCount]
    else []

structure Excerpt where
  /-- The number of digits of the last line number. -/
  width : Nat
  rows : List ExcerptRow
  deriving DecidableEq, Repr

namespace Excerpt

def margin : Nat := 2

/-- The excerpt for a diagnostic, if its line is one of the source. -/
def of? (lines : List (List Char)) (d : Diagnostic) : Option Excerpt :=
  let line := d.location.line
  if line = 0 ∨ lines.length < line then none
  else
    let first := max (line - margin) 1
    let last := min (line + margin) lines.length
    let shown := (lines.drop (first - 1)).take (last + 1 - first)
    let rows := (shown.zipIdx first).flatMap fun (text, number) => ExcerptRow.ofLine d number text
    some ⟨(Nat.toDigits 10 last).length, .blank :: rows ++ [.blank]⟩

def spans (excerpt : Excerpt) : List Span :=
  excerpt.rows.flatMap (ExcerptRow.spans excerpt.width)

/-- Each row of carets can be put into a text. -/
def fits (excerpt : Excerpt) : Bool := excerpt.rows.all ExcerptRow.fits

end Excerpt

end Quill
