import Quill.CommandLine.Options
import Quill.Compilation

/-!
What the command does: it compiles one file, reports what it finds on the error stream, and on
success prints what the options ask for.

How the system finds a file is a parameter of the run. The log of the stages that `-v` asks for is no
part of the result.
-/
namespace Quill

def version : String := "0.1.0"

namespace CommandLine

inductive ReadError where
  | notFound
  | notDirectory
  | isDirectory
  | nameTooLong
  | notText
  | other (text : String)
  deriving DecidableEq, Repr

/-- The cause in the system's words. -/
def ReadError.message : ReadError → String
  | notFound => "No such file or directory (os error 2)"
  | notDirectory => "Not a directory (os error 20)"
  | isDirectory => "Is a directory (os error 21)"
  | nameTooLong => "File name too long (os error 36)"
  | notText => "stream did not contain valid UTF-8"
  | other text => text

/-- The text of a source file, which is in UTF-8. -/
def decodeSource (bytes : ByteArray) : Except ReadError String :=
  match String.fromUTF8? bytes with
  | some source => .ok source
  | none => .error .notText

/-- What colours depend on, apart from the options. -/
structure Environment where
  settings : List (String × String)
  /-- Whether the output is shown on a terminal. -/
  terminal : Bool
  deriving DecidableEq, Repr

namespace Environment

/-- Whether a variable asks for something: it is set, and not to zero. -/
def asks? (env : Environment) (name : String) : Option Bool :=
  (env.settings.lookup name).map (· ≠ "0")

/-- Whether to use colours. The option decides; without one the variables do, the one that forces
colours first; a terminal has colours. -/
def colour (env : Environment) (choice : Option ColourChoice) : Bool :=
  match choice with
  | some .always => true
  | some .never => false
  | some .auto | none =>
    if env.asks? "CLICOLOR_FORCE" = some true then true
    else if (env.asks? "NO_COLOR").isSome then false
    else (env.asks? "CLICOLOR").getD true && env.terminal

end Environment

structure Result where
  exitCode : Nat
  stdout : String
  stderr : String
  deriving DecidableEq, Repr

def usage : String := "Usage: quill [OPTIONS] [FILE]\n"

def helpText : String :=
  "Check a Quill program and report every problem found in it\n\n" ++ usage ++
  "\nArguments:\n" ++
  "  [FILE]  Source file to compile\n" ++
  "\nOptions:\n" ++
  "  -t, --tokens         Print the token stream after a successful compile\n" ++
  "  -a, --ast            Print the syntax tree after a successful compile\n" ++
  "      --color <COLOR>  When to use colors in diagnostics [default: auto] " ++
    "[possible values: auto, always, never]\n" ++
  "  -v, --verbose...     Log pipeline stages to stderr (-v debug, -vv trace)\n" ++
  "  -h, --help           Print help\n" ++
  "  -V, --version        Print version\n"

def Stop.result : Stop → Result
  | help => ⟨0, helpText, ""⟩
  | version => ⟨0, "quill " ++ Quill.version ++ "\n", ""⟩
  | misuse cause =>
    ⟨2, "", "error: " ++ cause.message ++ "\n\n" ++ usage ++
      "\nFor more information, try '--help'.\n"⟩

def noFile : Result :=
  ⟨1, "", "Error: No input file specified\nQuill v" ++ version ++
    "\nUsage: quill [OPTIONS] <FILE>\n       quill --help\n"⟩

def unreadable (colour : Bool) (path : String) (error : ReadError) : Result :=
  ⟨1, "", Text.paint colour
    [⟨.strong .red, "error".toList⟩, ⟨.bolded, [':']⟩,
      .plain (" " ++ (Failure.unreadable path error.message).message ++ "\n")]⟩

/-- The result of a compilation: the report on the error stream, and after a success the listings
that were asked for. -/
def compiled (options : Options) (colour : Bool) (source : String) (compilation : Compilation) :
    Result :=
  let report :=
    if compilation.sink.records = [] then ""
    else compilation.sink.render (Text.lines source.toList) colour
  let listings :=
    Text.paint colour [⟨.strong .green, "Compilation successful".toList⟩, .plain "\n"] ++
    (if options.tokens then compilation.tokenListing else "") ++
    (if options.tree then compilation.dump else "")
  if compilation.succeeded then ⟨0, listings, report⟩ else ⟨1, "", report⟩

/-- Runs the command. The path of the file is the label of its diagnostics. -/
def run (env : Environment) (read : String → Except ReadError ByteArray) (args : List String) :
    Result :=
  match Options.ofArgs args with
  | .error stop => stop.result
  | .ok options =>
    match options.file with
    | none => noFile
    | some path =>
      let colour := env.colour options.colour
      match read path >>= decodeSource with
      | .error error => unreadable colour path error
      | .ok source => compiled options colour source (.ofSource (some path) source)

end CommandLine

end Quill
