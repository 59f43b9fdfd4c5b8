import Quill.CommandLine.Run

/-!
The command. It reads the file that the arguments name, if they name one, and prints the result.
-/
namespace Quill.CommandLine

/-- The cause of a failure to read. Error codes come with either sign. -/
def ReadError.ofSystem (error : IO.Error) : ReadError :=
  match error with
  | .noFileOrDirectory .. => .notFound
  | .inappropriateType _ code _ | .invalidArgument _ code _ =>
    match min code (-code) with
    | 20 => .notDirectory
    | 21 => .isDirectory
    | 36 => .nameTooLong
    | _ => .other (toString error)
  | _ => .other (toString error)

def readBytes (path : String) : IO (Except ReadError ByteArray) := do
  try
    return .ok (← IO.FS.readBinFile path)
  catch error =>
    return .error (.ofSystem error)

/-- The variables that decide on colours, and whether the output is a terminal. -/
def readEnvironment : IO Environment := do
  let mut settings := []
  for name in ["CLICOLOR_FORCE", "NO_COLOR", "CLICOLOR"] do
    if let some value ← IO.getEnv name then
      settings := (name, value) :: settings
  return ⟨settings, ← (← IO.getStdout).isTty⟩

end Quill.CommandLine

open Quill.CommandLine in
def main (args : List String) : IO UInt32 := do
  let env ← readEnvironment
  let source ←
    match Options.ofArgs args with
    | .ok { file := some path, .. } => readBytes path
    | _ => pure (.error .notFound)
  let result := run env (fun _ => source) args
  IO.eprint result.stderr
  IO.print result.stdout
  return result.exitCode.toUInt32
