/-!
The arguments of the command. They are read from left to right; the first one that asks for help or
for the version, or that is in error, decides.

The rules stand for those of a package for arguments. What it says of an error is not modelled to the
letter; that there is one, and the exit code, is.
-/
namespace Quill.CommandLine

inductive ColourChoice where
  | auto | always | never
  deriving DecidableEq, Repr

def ColourChoice.ofText? : String → Option ColourChoice
  | "auto" => some auto
  | "always" => some always
  | "never" => some never
  | _ => none

structure Options where
  file : Option String
  /-- List the tokens after a compilation without errors. -/
  tokens : Bool
  /-- Dump the tree after a compilation without errors. -/
  tree : Bool
  colour : Option ColourChoice
  /-- How often progress was asked for. -/
  verbosity : Nat
  deriving DecidableEq, Repr

inductive Misuse where
  | unknownOption (text : String)
  | repeatedOption (name : String)
  | missingValue (name : String)
  | unexpectedValue (name : String)
  | badValue (name value : String)
  | emptyFile
  | extraFile (name : String)
  deriving DecidableEq, Repr

def Misuse.message : Misuse → String
  | unknownOption text => "unexpected argument '" ++ text ++ "' found"
  | repeatedOption name => "the argument '--" ++ name ++ "' cannot be used multiple times"
  | missingValue name => "a value is required for '--" ++ name ++ "' but none was supplied"
  | unexpectedValue name => "unexpected value for '--" ++ name ++ "' found; no more were expected"
  | badValue name value => "invalid value '" ++ value ++ "' for '--" ++ name ++ "'"
  | emptyFile => "a value is required for '[FILE]' but none was supplied"
  | extraFile name => "unexpected argument '" ++ name ++ "' found"

/-- Why the arguments are not read to their end. -/
inductive Stop where
  | help
  | version
  | misuse (cause : Misuse)
  deriving DecidableEq, Repr

/-- The options that take no value. -/
inductive Flag where
  | tokens | tree | verbose | help | version
  deriving DecidableEq, Repr

namespace Flag

def ofLong? : String → Option Flag
  | "tokens" => some tokens
  | "ast" => some tree
  | "verbose" => some verbose
  | "help" => some help
  | "version" => some version
  | _ => none

def ofShort? : Char → Option Flag
  | 't' => some tokens
  | 'a' => some tree
  | 'v' => some verbose
  | 'h' => some help
  | 'V' => some version
  | _ => none

end Flag

namespace Options

def initial : Options := ⟨none, false, false, none, 0⟩

def setFlag (options : Options) : Flag → Except Stop Options
  | .tokens =>
    if options.tokens then .error (.misuse (.repeatedOption "tokens"))
    else .ok { options with tokens := true }
  | .tree =>
    if options.tree then .error (.misuse (.repeatedOption "ast"))
    else .ok { options with tree := true }
  | .verbose => .ok { options with verbosity := options.verbosity + 1 }
  | .help => .error .help
  | .version => .error .version

def setColour (options : Options) (value : String) : Except Stop Options :=
  match ColourChoice.ofText? value with
  | .none => .error (.misuse (.badValue "color" value))
  | some choice =>
    if options.colour.isSome then .error (.misuse (.repeatedOption "color"))
    else .ok { options with colour := some choice }

def setFile (options : Options) (name : String) : Except Stop Options :=
  if name = "" then .error (.misuse .emptyFile)
  else if options.file.isSome then .error (.misuse (.extraFile name))
  else .ok { options with file := some name }

/-- Reads the letters of joined short options. -/
def setShorts (options : Options) : List Char → Except Stop Options
  | [] => .ok options
  | c :: rest =>
    match Flag.ofShort? c with
    | .none => .error (.misuse (.unknownOption ("-" ++ c.toString)))
    | some flag => do setShorts (← options.setFlag flag) rest

def setFiles (options : Options) : List String → Except Stop Options
  | [] => .ok options
  | arg :: rest => do setFiles (← options.setFile arg) rest

/-- The name of a long option, and the value after its equals sign. -/
def splitLong (text : List Char) : String × Option String :=
  (String.ofList (text.takeWhile (· ≠ '=')),
    match text.dropWhile (· ≠ '=') with
    | [] => .none
    | _ :: value => some (String.ofList value))

/-- Whether an argument can not be a value because it starts like an option. -/
def isOptionLike (arg : String) : Bool :=
  match arg.toList with
  | '-' :: _ :: _ => true
  | _ => false

/-- Reads arguments in order. Two hyphens end the options. -/
def read (options : Options) : List String → Except Stop Options
  | [] => .ok options
  | arg :: rest =>
    match arg.toList with
    | ['-', '-'] => options.setFiles rest
    | '-' :: '-' :: long =>
      let (name, value) := splitLong long
      if name = "color" then
        match value, rest with
        | some value, rest => do read (← options.setColour value) rest
        | .none, [] => .error (.misuse (.missingValue name))
        | .none, value :: rest =>
          if isOptionLike value then .error (.misuse (.missingValue name))
          else do read (← options.setColour value) rest
      else
        match Flag.ofLong? name with
        | .none => .error (.misuse (.unknownOption arg))
        | some flag =>
          if value.isSome then .error (.misuse (.unexpectedValue name))
          else do read (← options.setFlag flag) rest
    | '-' :: c :: more => do read (← options.setShorts (c :: more)) rest
    | _ => do read (← options.setFile arg) rest

def ofArgs (args : List String) : Except Stop Options := read initial args

end Options

end Quill.CommandLine
