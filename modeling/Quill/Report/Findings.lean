import Quill.Grammar.Hint
import Quill.Lexeme.Error
import Quill.Report.Diagnostic
import Quill.Typing.Error
import Quill.Typing.SymbolTable

/-!
The diagnostics that the findings of the phases become.
-/
namespace Quill

def LexicalError.diagnostic (error : LexicalError) : Diagnostic :=
  .pointing .lexical error.cause.message error.cause.suggestion error.location

/-- The diagnostic of a syntax error points at all of the token that it blames. -/
def SyntaxError.diagnostic (error : SyntaxError) : Diagnostic :=
  match error.blamed? with
  | some token =>
    (Diagnostic.pointing .syntactic error.message error.cause.suggestion token.location).upTo
      token.endColumn
  | none => .pointing .syntactic error.message error.cause.suggestion .start

def SemanticError.diagnostic (error : SemanticError) : Diagnostic :=
  .pointing .semantic error.cause.message error.cause.suggestion error.location

/-- The warning about a name that is never read. It points at the declaration. -/
def unusedWarning (entry : String × Symbol) : Diagnostic :=
  .pointing .warning ("Unused variable '" ++ entry.1 ++ "'")
    "Remove this variable or use it in your code" entry.2.location

end Quill
