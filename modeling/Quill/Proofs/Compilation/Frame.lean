import Quill.Proofs.Grammar.Recording
import Quill.Proofs.Lexeme.Recording
import Quill.Proofs.Typing.Recording

/-!
What the phases do to the sink that they are handed. Each is run with the sink at hand, through all
of its recursions; none looks at the records that are there, apart from the analysis, which counts
the errors among them twice and takes the difference.
-/
namespace Quill

open Recording

variable {α : Type}

/-- On a sink, a computation gives a value and appends records; the records before them and the
label stay. -/
structure Appends (run : Recording α) (sink : Sink) (value : α) (added : List Diagnostic) : Prop
    where
  value_eq : (run sink).1 = value
  records_eq : (run sink).2.records = sink.records ++ added
  file_eq : (run sink).2.file = sink.file

/-- The difference of two counts of errors, one before and one after, is a natural number and counts
the errors among the records that came in between. -/
structure Tallies (before after : Sink) (added : List Diagnostic) : Prop where
  no_underflow : before.errorCount ≤ after.errorCount
  own : after.errorCount - before.errorCount = added.countP Diagnostic.isError

/-- A computation makes no difference between two sinks. -/
def SameFor (run : Recording α) (sink other : Sink) : Prop :=
  ∃ value added, Appends run sink value added ∧ Appends run other value added

theorem Recording.Gives.appends {run : Recording α} {value : α} {added : List Diagnostic}
    (h : Gives run value added) (sink : Sink) :
    Appends run sink value (added.map sink.stamp) := by
  constructor <;> rw [h]
  · rfl
  · rfl

theorem Appends.tallies {run : Recording α} {sink : Sink} {value : α} {added : List Diagnostic}
    (h : Appends run sink value added) : Tallies sink (run sink).2 added := by
  have count : (run sink).2.errorCount =
      sink.errorCount + added.countP Diagnostic.isError := by
    rw [Sink.errorCount, h.records_eq, List.countP_append]
    rfl
  constructor <;> omega

/-- Sinks with one label stamp alike. -/
theorem Sink.stamp_congr {sink other : Sink} (label : sink.file = other.file) :
    sink.stamp = other.stamp := by
  funext d
  rw [stamp, stamp, label]

theorem Recording.Gives.sameFor {run : Recording α} {value : α} {added : List Diagnostic}
    (h : Gives run value added) {sink other : Sink} (label : sink.file = other.file) :
    SameFor run sink other := by
  refine ⟨value, added.map sink.stamp, h.appends sink, ?_⟩
  rw [Sink.stamp_congr label]
  exact h.appends other

namespace Sink

/-- Each phase does the same to two sinks with one label, whatever records they hold: it has one
result and appends the same records. The analysis finds its own errors by the counts. -/
theorem phases_frame (sink other : Sink) (label : sink.file = other.file) :
    (∀ source,
      Recording.scan source = (scan · source) ∧ SameFor (Recording.scan source) sink other) ∧
    (∀ tokens,
      Recording.parse tokens = (parse · tokens) ∧ SameFor (Recording.parse tokens) sink other) ∧
    ∀ symbols program,
      (∀ s : Sink, Recording.analyse program symbols s =
        let analysed := s.analyse symbols program
        ((analysed.1.ok, analysed.1.symbols), analysed.2)) ∧
      ∃ verdict added,
        Appends (Recording.analyse program symbols) sink verdict added ∧
        Appends (Recording.analyse program symbols) other verdict added ∧
        Tallies sink (sink.analyse symbols program).2 added ∧
        Tallies other (other.analyse symbols program).2 added := by
  refine ⟨fun source => ⟨funext (Recording.scan_eq source), ?_⟩,
    fun tokens => ⟨funext (Recording.parse_eq tokens), ?_⟩,
    fun symbols program => ⟨Recording.analyse_eq program symbols, ?_⟩⟩
  · exact (gives_tokens .start source.toList).sameFor label
  · exact ((gives_statements (.start tokens)).map _).sameFor label
  · obtain ⟨verdict, added, here, there⟩ := (gives_analyse program symbols).sameFor label
    refine ⟨verdict, added, here, there, ?_, ?_⟩
    · have run := here.tallies
      rwa [Recording.analyse_eq] at run
    · have run := there.tallies
      rwa [Recording.analyse_eq] at run

/-- A sink that holds an error and an empty one. A declaration gives either of them one error of its
own. -/
theorem phases_frame_held :
    let held : Sink := ⟨some "a", [.pointing .lexical "Unterminated string" "" .start]⟩
    let fresh : Sink := .empty (some "a")
    let program : Program := ⟨[.scalar "n" .int (.literal (.bool true) .start) .start], .start⟩
    held.file = fresh.file ∧ SameFor (Recording.scan "@") held fresh ∧
      SameFor (Recording.parse [.endMark .start]) held fresh ∧
      SameFor (Recording.analyse program .empty) held fresh ∧
      (held.analyse .empty program).2.errorCount - held.errorCount = 1 := by
  intro held fresh program
  obtain ⟨scans, parses, analyses⟩ := phases_frame held fresh rfl
  obtain ⟨-, verdict, added, here, there, -, -⟩ := analyses .empty program
  exact ⟨rfl, (scans "@").2, (parses [.endMark .start]).2, ⟨verdict, added, here, there⟩,
    by decide⟩

end Sink

end Quill
