import Quill.Grammar.Error
import Quill.Text.Lines

/-!
Hints for syntax errors. A hint goes by a fragment of the message, so that one hint serves all
messages that ask for the same thing.
-/
namespace Quill

/-- Fragments of messages with their hints. The first fragment that a message has decides. -/
def syntaxHints : List (String × String) :=
  [("Expected '=' after", "Add '=' followed by a value"),
   ("Expected '[' after 'stdout'", "Write output as stdout[text \x7bvariable\x7d]"),
   ("Expected ']' after stdout", "Close the output statement with ']'"),
   ("Expected variable name inside \x7b\x7d", "Put a variable name between '\x7b' and '\x7d'"),
   ("Expected '\x7d'", "Close the interpolation or type annotation with '\x7d'"),
   ("Expected variable name", "Variable names start with a letter or '_'"),
   ("Expected type", "Use one of the types: string, int, float, bool"),
   ("Expected ')'", "Close the parenthesized expression with ')'"),
   ("Expected ']' after '['", "Array declarations are written name[] = [...]"),
   ("Expected ']' after array", "Close the array with ']'"),
   ("Expected '[' after type", "Give the array size in brackets, e.g. \x7bint\x7d[10]"),
   ("Expected array literal", "Initialize arrays with [element1, element2, ...]"),
   ("Expected array size", "Array sizes are non-negative integer literals"),
   ("Expected array syntax", "Use name[] = [...] or name\x7btype\x7d[size]"),
   ("out of range", "Use a smaller number"),
   ("Expected expression", "Provide a literal, variable, or parenthesized expression"),
   ("Unexpected token at start of statement", "Statements start with 'new', 'bl', or 'stdout'")]

/-- The hint for a message, or no text if there is none. -/
def syntaxHint (message : String) : String :=
  match syntaxHints.find? fun entry => Text.occurs entry.1.toList message.toList with
  | some entry => entry.2
  | none => ""

def SyntaxCause.suggestion (cause : SyntaxCause) : String :=
  syntaxHint cause.message

end Quill
