import Quill.Location
import Quill.Token.Kind

/-!
Tokens: a kind, a lexeme and the columns that the token takes up on its first line. A lexeme is the
source text, except in a string literal, where it is the text that the literal stands for.
-/
namespace Quill

structure Token where
  kind : TokenKind
  lexeme : String
  location : Location
  /-- Column of the last character on the token's first line. -/
  endColumn : Nat
  deriving DecidableEq, Repr

namespace Token

/-- A token up to a given column. It takes up at least one column. -/
def upTo (endColumn : Nat) (kind : TokenKind) (lexeme : String) (location : Location) : Token :=
  ⟨kind, lexeme, location, max endColumn location.column⟩

/-- A token whose source text is its lexeme. -/
def spelled (kind : TokenKind) (lexeme : String) (location : Location) : Token :=
  upTo (location.column + lexeme.length - 1) kind lexeme location

/-- The mark that closes every token list that a scan gives. -/
def endMark (location : Location) : Token :=
  spelled .endOfInput "" location

/-- One line of a token listing. -/
def listing (token : Token) : String :=
  token.kind.name ++ " " ++ token.lexeme ++ "\n"

end Token

/-- A listing of tokens, one a line. Comments are left out. -/
def tokenListing (tokens : List Token) : String :=
  String.join ((tokens.filter (·.kind ≠ .comment)).map Token.listing)

end Quill
