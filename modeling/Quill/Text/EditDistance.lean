/-!
The edit distance of two texts: the least number of characters to insert, delete and replace to get
from one to the other. The distances to all ends of the target are computed together, one row for
each character of the source text, from its last to its first.

The distance stands for the one of a package, of which it has the meaning and not the algorithm.
-/
namespace Quill.Text

/-- The distances from the empty text to each end of the target, the whole target first. -/
def emptyRow : List Char → List Nat
  | [] => [0]
  | _ :: target => (target.length + 1) :: emptyRow target

/-- The row of distances from `c :: text` to each end of the target, out of the row of `text`. -/
def nextRow (c : Char) : List Char → List Nat → List Nat
  | [], row => [row.headD 0 + 1]
  | d :: target, row =>
    let shorter := nextRow c target row.tail
    let cost :=
      if c = d then row.tail.headD 0
      else min (row.headD 0) (min (shorter.headD 0) (row.tail.headD 0)) + 1
    cost :: shorter

def editDistance (text target : List Char) : Nat :=
  (text.foldr (nextRow · target) (emptyRow target)).headD 0

end Quill.Text
