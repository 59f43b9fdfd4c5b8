import Quill.Compilation

/-!
Sessions: sources that are compiled one after the other into one sink and one symbol table.
-/
namespace Quill

structure Session where
  sink : Sink
  symbols : SymbolTable
  deriving Repr

namespace Session

def start (file : Option String) : Session := ⟨.empty file, .empty⟩

def scan (session : Session) (source : String) : List Token × Session :=
  let (tokens, sink) := session.sink.scan source
  (tokens, { session with sink })

def parse (session : Session) (source : String) : Program × Session :=
  let (tokens, session) := session.scan source
  let (program, sink) := session.sink.parse tokens
  (program, { session with sink })

/-- Scans a source, reads its program and analyses it, also after errors. -/
def analyse (session : Session) (source : String) : Bool × Session :=
  let (program, session) := session.parse source
  let (analysis, sink) := session.sink.analyse session.symbols program
  (analysis.ok, ⟨sink, analysis.symbols⟩)

def clear (session : Session) : Session := { session with sink := session.sink.clear }

def reset (session : Session) : Session := { session with symbols := .empty }

/-- The report without excerpts. -/
def report (session : Session) : String := session.sink.render [] false

end Session

end Quill
