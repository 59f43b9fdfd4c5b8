/-!
Lines of a text, and the search for a fragment in one.
-/
namespace Quill.Text

/-- The lines of a text. A line ends with a line feed, and a carriage return just before it belongs
to the line end. A text that ends with a line feed has no empty line after it. -/
def lines : List Char → List (List Char)
  | [] => []
  | '\r' :: '\n' :: rest => [] :: lines rest
  | c :: rest =>
    if c = '\n' then [] :: lines rest
    else
      match lines rest with
      | [] => [[c]]
      | line :: more => (c :: line) :: more

/-- Whether a fragment stands somewhere in a text. -/
def occurs (fragment : List Char) : List Char → Bool
  | [] => fragment.isEmpty
  | c :: rest => fragment.isPrefixOf (c :: rest) || occurs fragment rest

theorem occurs_eq_true_iff (fragment text : List Char) :
    occurs fragment text = true ↔ fragment <:+: text := by
  induction text with
  | nil => simp [occurs]
  | cons c rest ih => simp [occurs, ih, List.infix_cons_iff]

end Quill.Text
