import Quill.Text.EditDistance

/-!
Names that someone may have meant: the nearest candidates by edit distance, and the question that
offers them.
-/
namespace Quill.Text

/-- How far a suggestion may lie from a name. Longer names, in bytes, admit more slips. -/
def slips (name : String) : Nat :=
  if name.utf8ByteSize ≤ 3 then 1 else if name.utf8ByteSize ≤ 6 then 2 else 3

/-- Nearer candidates come first; of two at one distance, the one with the lesser text. -/
def nearerOrEqual (a b : Nat × String) : Bool :=
  a.1 < b.1 || (a.1 = b.1 && a.2 ≤ b.2)

def withinReach (name : String) (candidates : List String) : List (Nat × String) :=
  ((candidates.filter fun c => c ≠ "" && c ≠ name).map fun c =>
    (editDistance name.toList c.toList, c)).filter (·.1 ≤ slips name)

/-- At most three candidates, the nearest first. -/
def similarNames (name : String) (candidates : List String) : List String :=
  (((withinReach name candidates).mergeSort nearerOrEqual).take 3).map (·.2)

/-- The question that offers some names, if there are any. -/
def didYouMean? : List String → Option String
  | [] => none
  | [name] => some ("did you mean `" ++ name ++ "`?")
  | names =>
    some ("did you mean one of: " ++ ", ".intercalate (names.map fun n => "`" ++ n ++ "`") ++ "?")

end Quill.Text
