import Quill.Report.Diagnostic

/-!
Sinks: the diagnostics of a run in the order in which they came. A sink may have a file label, and
gives it to each diagnostic that has none.
-/
namespace Quill

structure Sink where
  file : Option String
  records : List Diagnostic
  deriving DecidableEq, Repr

namespace Sink

def empty (file : Option String) : Sink := ⟨file, []⟩

/-- A diagnostic with the sink's label, unless it has a label of its own. -/
def stamp (sink : Sink) (d : Diagnostic) : Diagnostic :=
  { d with file := d.file.or sink.file }

def push (sink : Sink) (d : Diagnostic) : Sink :=
  { sink with records := sink.records ++ [sink.stamp d] }

def pushAll (sink : Sink) (ds : List Diagnostic) : Sink :=
  { sink with records := sink.records ++ ds.map sink.stamp }

/-- Drops the diagnostics. The label stays. -/
def clear (sink : Sink) : Sink := { sink with records := [] }

def errorCount (sink : Sink) : Nat := sink.records.countP Diagnostic.isError

def warningCount (sink : Sink) : Nat := sink.records.length - sink.errorCount

def hasErrors (sink : Sink) : Bool := sink.records.any Diagnostic.isError

def ofKind (sink : Sink) (kind : DiagnosticKind) : List Diagnostic :=
  sink.records.filter (·.kind = kind)

theorem pushAll_nil (sink : Sink) : sink.pushAll [] = sink := by
  simp [pushAll]

theorem pushAll_append (sink : Sink) (ds more : List Diagnostic) :
    sink.pushAll (ds ++ more) = (sink.pushAll ds).pushAll more := by
  simp [pushAll, stamp]

theorem errorCount_pushAll (sink : Sink) (ds : List Diagnostic) :
    (sink.pushAll ds).errorCount = sink.errorCount + ds.countP Diagnostic.isError := by
  rw [errorCount, pushAll, List.countP_append, List.countP_map]
  rfl

end Sink

end Quill
