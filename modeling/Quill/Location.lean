/-!
Positions in source text. Lines and columns count from one and a column counts characters, so a
position is determined by the text in front of it.

A position carries no file name: tokens, trees and symbols are places in one source, and its label
stands in the diagnostics alone. Lines and columns have no bound; only the number of carets in an
excerpt is computed in machine words.
-/
namespace Quill

/-- A line and a column, both counted from one. -/
structure Location where
  line : Nat
  column : Nat
  deriving DecidableEq, Repr

namespace Location

def start : Location := ⟨1, 1⟩

/-- The position after one more character: a line feed opens the next line. -/
def step (here : Location) (c : Char) : Location :=
  if c = '\n' then ⟨here.line + 1, 1⟩ else ⟨here.line, here.column + 1⟩

/-- The position after a stretch of text. -/
def after (here : Location) (text : List Char) : Location :=
  text.foldl step here

@[simp] theorem after_nil (here : Location) : here.after [] = here := rfl

@[simp] theorem after_cons (here : Location) (c : Char) (text : List Char) :
    here.after (c :: text) = (here.step c).after text := rfl

@[simp] theorem after_append (here : Location) (text more : List Char) :
    here.after (text ++ more) = (here.after text).after more := by
  simp [after]

end Location

end Quill
