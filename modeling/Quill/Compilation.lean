import Quill.Grammar.Program
import Quill.Lexeme.Scan
import Quill.Report.Findings
import Quill.Report.Render
import Quill.Tree.Dump
import Quill.Typing.Check

/-!
Compilation: the scan of a source, the reading of its tokens and the analysis of its program. Each
phase adds its findings to a sink and gives its result whatever it found; the analysis is left out
after errors of spelling or grammar, since it would report what recovery has dropped.
-/
namespace Quill

namespace Sink

def scan (sink : Sink) (source : String) : List Token × Sink :=
  let scan := Scan.ofSource source
  (scan.tokens, sink.pushAll (scan.errors.map LexicalError.diagnostic))

def parse (sink : Sink) (tokens : List Token) : Program × Sink :=
  let parse := Parse.ofTokens tokens
  (parse.program, sink.pushAll (parse.errors.map SyntaxError.diagnostic))

/-- Analyses a program, and warns of all names that are unread after it. -/
def analyse (sink : Sink) (symbols : SymbolTable) (program : Program) : Analysis × Sink :=
  let analysis := Analysis.ofProgram symbols program
  (analysis, (sink.pushAll (analysis.errors.map SemanticError.diagnostic)).pushAll
    (analysis.unused.map unusedWarning))

end Sink

structure Compilation where
  tokens : List Token
  program : Program
  /-- The declared names, or none if the program was not analysed. -/
  symbols : SymbolTable
  sink : Sink
  deriving Repr

namespace Compilation

/-- Compiles a source whose diagnostics get a file label, if there is one. -/
def ofSource (file : Option String) (source : String) : Compilation :=
  let (tokens, sink) := (Sink.empty file).scan source
  let (program, sink) := sink.parse tokens
  if sink.hasErrors then ⟨tokens, program, .empty, sink⟩
  else
    let (analysis, sink) := sink.analyse .empty program
    ⟨tokens, program, analysis.symbols, sink⟩

/-- Warnings alone do no harm. -/
def succeeded (compilation : Compilation) : Bool := !compilation.sink.hasErrors

def tokenListing (compilation : Compilation) : String := Quill.tokenListing compilation.tokens

def dump (compilation : Compilation) : String := compilation.program.dump

end Compilation

end Quill
