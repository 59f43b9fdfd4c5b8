import Quill.Lexeme.Quoted
import Quill.Token.Basic

/-!
Lexemes: the stretches of source that tokens are made from. A lexeme holds its whole source text, so
its token and its errors follow from it and from the place where it starts.
-/
namespace Quill

/-- A stretch of source that makes one token. -/
inductive Lexeme where
  | plain (kind : TokenKind) (text : List Char)
  | quoted (literal : Quoted)
  /-- A character that no token starts with. -/
  | stray (c : Char)
  deriving DecidableEq, Repr

namespace Lexeme

def source : Lexeme → List Char
  | plain _ text => text
  | quoted literal => '"' :: literal.source
  | stray c => [c]

def kind : Lexeme → TokenKind
  | plain kind _ => kind
  | quoted _ => .stringLiteral
  | stray _ => .unknown

/-- The text that the token shows: what a string literal stands for, else the source text. -/
def value : Lexeme → List Char
  | plain _ text => text
  | quoted literal => literal.value
  | stray c => [c]

/-- The token of a lexeme at `here`. It ends with the first line of its source text. -/
def token (lexeme : Lexeme) (here : Location) : Token :=
  .upTo (here.column + (lexeme.source.takeWhile (· ≠ '\n')).length - 1)
    lexeme.kind (String.ofList lexeme.value) here

def errors (lexeme : Lexeme) (here : Location) : List LexicalError :=
  match lexeme with
  | plain .. => []
  | quoted literal => literal.errors here
  | stray c => [⟨.unexpected c, here⟩]

end Lexeme

end Quill
