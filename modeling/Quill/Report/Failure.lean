/-!
Failures of a run as a whole, told apart from the diagnostics about its source.
-/
namespace Quill

inductive Failure where
  /-- The source file could not be read, for a cause in the system's words. -/
  | unreadable (path cause : String)
  /-- The source has errors. -/
  | notCompiled (file : String) (errors : Nat)
  deriving DecidableEq, Repr

def Failure.message : Failure → String
  | unreadable path cause => "Failed to read file '" ++ path ++ "': " ++ cause
  | notCompiled file errors =>
    "could not compile `" ++ file ++ "` due to " ++ toString errors ++ " previous error" ++
      if errors = 1 then "" else "s"

theorem Failure.message_notCompiled (file : String) (errors : Nat) :
    (notCompiled file errors).message =
      "could not compile `" ++ file ++ "` due to " ++ toString errors ++ " previous error" ++
        if errors = 1 then "" else "s" := rfl

end Quill
