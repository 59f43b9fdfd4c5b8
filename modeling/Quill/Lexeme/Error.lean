import Quill.Location

/-!
Lexical errors: what the scan of a source complains of, where, and what it suggests.
-/
namespace Quill

/-- What to do about a character that no token starts with. -/
def strayHint : Char → String
  | '!' => "Use '!=' for inequality; there is no negation operator"
  | '\'' => "String literals use double quotes"
  | '&' | '|' => "Logical operators are not supported"
  | _ => "Remove this character"

inductive LexicalCause where
  /-- A character that no token starts with, or a lone `!`. -/
  | unexpected (c : Char)
  /-- A backslash in a string literal before a character that it does not escape. -/
  | invalidEscape (c : Char)
  /-- A string literal that the source ends in. -/
  | unterminated
  deriving DecidableEq, Repr

namespace LexicalCause

def message : LexicalCause → String
  | unexpected c => "Unexpected character '" ++ c.toString ++ "'"
  | invalidEscape c => "Invalid escape sequence '\\" ++ c.toString ++ "'"
  | unterminated => "Unterminated string literal"

def suggestion : LexicalCause → String
  | unexpected c => strayHint c
  | invalidEscape _ => "Supported escapes are \\n, \\t, \\r, \\\\ and \\\""
  | unterminated => "Add a closing '\"' to end the string"

end LexicalCause

structure LexicalError where
  cause : LexicalCause
  location : Location
  deriving DecidableEq, Repr

end Quill
