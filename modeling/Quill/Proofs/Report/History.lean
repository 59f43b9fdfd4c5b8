import Mathlib.Data.List.Induction
import Mathlib.Data.List.DropRight
import Quill.Proofs.Report.Window

/-!
Sinks as their histories. What a sink holds is what has been added to it since it was last cleared,
in order; the sink's label is given to the records that have none, and nothing else about them
changes (`Sink.records_run`). The counts and the lists of each kind are views of these records, and
agree with each other for any records.
-/
namespace Quill

/-- One use of a sink: it adds a diagnostic as it is or one of a kind, or drops all. -/
inductive SinkUse where
  | push (d : Diagnostic)
  | lexical (message suggestion : String) (location : Location)
  | syntactic (message suggestion : String) (location : Location) (endColumn : Nat)
  | semantic (message suggestion : String) (location : Location)
  | warning (message suggestion : String) (location : Location)
  | clear
  deriving DecidableEq, Repr

namespace SinkUse

/-- The diagnostic that a use adds, before it is labelled. Only a syntax error may cover more than
its first column. -/
def added? : SinkUse → Option Diagnostic
  | push d => some d
  | lexical message suggestion location =>
    some ⟨.lexical, message, location, location.column, suggestion, none⟩
  | syntactic message suggestion location endColumn =>
    some ⟨.syntactic, message, location, max endColumn location.column, suggestion, none⟩
  | semantic message suggestion location =>
    some ⟨.semantic, message, location, location.column, suggestion, none⟩
  | warning message suggestion location =>
    some ⟨.warning, message, location, location.column, suggestion, none⟩
  | clear => none

/-- The uses behind the last one that drops all. -/
def sinceClear (uses : List SinkUse) : List SinkUse :=
  uses.rtakeWhile (· ≠ .clear)

/-- The diagnostics that uses leave in a sink, before they are labelled. -/
def kept (uses : List SinkUse) : List Diagnostic :=
  (sinceClear uses).filterMap added?

theorem kept_clear (uses : List SinkUse) : kept (uses ++ [.clear]) = [] := by
  simp [kept, sinceClear]

theorem kept_concat {next : SinkUse} {d : Diagnostic} (adds : next.added? = some d)
    (uses : List SinkUse) : kept (uses ++ [next]) = kept uses ++ [d] := by
  have stays : next ≠ .clear := by
    rintro rfl
    cases adds
  simp [kept, sinceClear, stays, adds]

end SinkUse

/-- A diagnostic with a given label, if it has none of its own. An empty label is one, too. -/
def Diagnostic.labelled (label : Option String) (d : Diagnostic) : Diagnostic :=
  match d.file with
  | some _ => d
  | none => { d with file := label }

namespace Sink

open SinkUse

def use (sink : Sink) : SinkUse → Sink
  | .push d => sink.push d
  | .lexical message suggestion location =>
    sink.push (.pointing .lexical message suggestion location)
  | .syntactic message suggestion location endColumn =>
    sink.push ((Diagnostic.pointing .syntactic message suggestion location).upTo endColumn)
  | .semantic message suggestion location =>
    sink.push (.pointing .semantic message suggestion location)
  | .warning message suggestion location =>
    sink.push (.pointing .warning message suggestion location)
  | .clear => sink.clear

def run (sink : Sink) (uses : List SinkUse) : Sink := uses.foldl use sink

variable {sink : Sink}

theorem run_concat (sink : Sink) (uses : List SinkUse) (next : SinkUse) :
    sink.run (uses ++ [next]) = (sink.run uses).use next := by
  simp [run]

theorem stamp_eq_labelled (sink : Sink) (d : Diagnostic) :
    sink.stamp d = d.labelled sink.file := by
  obtain ⟨kind, message, location, endColumn, suggestion, file⟩ := d
  cases file <;> rfl

/-- A use that does not clear the sink pushes the diagnostic that it adds. -/
theorem use_eq_push {next : SinkUse} {d : Diagnostic} (adds : next.added? = some d)
    (sink : Sink) : sink.use next = sink.push d := by
  cases next <;> cases adds <;> rfl

theorem use_cases (next : SinkUse) : next = .clear ∨ ∃ d, next.added? = some d := by
  cases next with
  | clear => exact .inl rfl
  | push | lexical | syntactic | semantic | warning => exact .inr ⟨_, rfl⟩

theorem file_use (sink : Sink) (next : SinkUse) : (sink.use next).file = sink.file := by
  cases next <;> rfl

theorem file_run (sink : Sink) (uses : List SinkUse) : (sink.run uses).file = sink.file := by
  induction uses generalizing sink with
  | nil => rfl
  | cons first rest ih => exact (ih (sink.use first)).trans (sink.file_use first)

/-- The records are what has been added since the sink was last cleared. -/
theorem records_run (file : Option String) (uses : List SinkUse) :
    ((empty file).run uses).records = (kept uses).map (Diagnostic.labelled file) := by
  induction uses using List.reverseRecOn with
  | nil => rfl
  | append_singleton uses next ih =>
    rw [run_concat]
    rcases use_cases next with rfl | ⟨d, adds⟩
    · rw [kept_clear]
      rfl
    · have label : ((empty file).run uses).file = file := file_run (empty file) uses
      rw [use_eq_push adds, kept_concat adds, List.map_append, ← ih, push, stamp_eq_labelled,
        label]
      rfl

theorem errorCount_le (sink : Sink) : sink.errorCount ≤ sink.records.length :=
  List.countP_le_length

/-- What is no error is a warning, so the difference of the counts counts warnings. -/
theorem warningCount_eq (sink : Sink) : sink.warningCount = (sink.ofKind .warning).length := by
  have whole := List.length_eq_countP_add_countP Diagnostic.isError (l := sink.records)
  -- There are four kinds, and a warning is the one that is no error.
  have harmless : sink.records.countP (fun d => ¬d.isError = true) =
      (sink.ofKind .warning).length := by
    rw [ofKind, List.countP_eq_length_filter]
    congr 2
    funext d
    cases kind : d.kind <;> simp [Diagnostic.isError, DiagnosticKind.isError, kind]
  have errors : sink.errorCount = sink.records.countP Diagnostic.isError := rfl
  rw [warningCount]
  omega

theorem hasErrors_iff (sink : Sink) : sink.hasErrors = true ↔ 0 < sink.errorCount := by
  rw [hasErrors, errorCount, List.any_eq_true, List.countP_pos_iff]

/-- Each record is in the list of its kind as often as it is there, and in no other list. -/
theorem perm_ofKind (sink : Sink) :
    (DiagnosticKind.all.flatMap sink.ofKind).Perm sink.records := by
  rw [List.perm_iff_count]
  intro d
  have own : ∀ kind, (sink.ofKind kind).count d =
      if d.kind = kind then sink.records.count d else 0 := by
    intro kind
    split
    · next same => exact List.count_filter (decide_eq_true same)
    · next other =>
      apply List.count_eq_zero_of_not_mem
      intro member
      exact other (of_decide_eq_true (List.mem_filter.mp member).2)
  cases kind : d.kind <;> simp [DiagnosticKind.all, own, kind]

end Sink

namespace SinkUse

/-- What a use adds has its columns in order, unless it pushes a diagnostic that has not. -/
theorem column_le {next : SinkUse} {d : Diagnostic} (adds : next.added? = some d)
    (built : ∀ given, next = .push given → given.Built) : d.location.column ≤ d.endColumn := by
  cases next with
  | push given =>
    cases adds
    exact (built d rfl).column_le
  | lexical | semantic | warning =>
    cases adds
    exact Nat.le_refl _
  | syntactic message suggestion location endColumn =>
    cases adds
    exact Nat.le_max_right endColumn location.column
  | clear => cases adds

theorem column_le_of_mem_kept {uses : List SinkUse} (built : ∀ d, .push d ∈ uses → d.Built)
    {d : Diagnostic} (member : d ∈ kept uses) : d.location.column ≤ d.endColumn := by
  obtain ⟨next, recent, adds⟩ := List.mem_filterMap.mp member
  have among : next ∈ uses := (List.rtakeWhile_suffix _ uses).subset recent
  apply column_le adds
  rintro given rfl
  exact built given among

end SinkUse

theorem Diagnostic.columns_labelled (label : Option String) (d : Diagnostic) :
    (d.labelled label).location = d.location ∧ (d.labelled label).endColumn = d.endColumn := by
  unfold labelled
  split <;> exact ⟨rfl, rfl⟩

/-- A sink is the history of its uses. Its records are those added since it was last cleared, in
order and unchanged, but that those without a label have the sink's; the label stays. The errors and
the other records make up all, with no subtraction below zero; there are errors exactly if their
count is positive; the lists of the four kinds are parts of the records in the same order, and
together they have each record once. Diagnostics that are made in the one way there is end no
earlier than they start, and so do the records if only such diagnostics are pushed. -/
theorem Sink.run_keeps_added (file : Option String) (uses : List SinkUse) :
    let sink := (Sink.empty file).run uses
    sink.records = (SinkUse.kept uses).map (Diagnostic.labelled file) ∧
    sink.file = file ∧
    (sink.errorCount ≤ sink.records.length ∧
      sink.errorCount + sink.warningCount = sink.records.length ∧
      sink.warningCount = (sink.ofKind .warning).length) ∧
    (sink.hasErrors = true ↔ 0 < sink.errorCount) ∧
    (∀ kind, (sink.ofKind kind).Sublist sink.records ∧ ∀ d ∈ sink.ofKind kind, d.kind = kind) ∧
    (DiagnosticKind.all.flatMap sink.ofKind).Perm sink.records ∧
    (∀ d : Diagnostic, d.Built → d.location.column ≤ d.endColumn) ∧
    ((∀ d, .push d ∈ uses → d.Built) →
      ∀ d ∈ sink.records, d.location.column ≤ d.endColumn) := by
  intro sink
  have records := records_run file uses
  refine ⟨records, file_run (empty file) uses, ⟨sink.errorCount_le, ?_, sink.warningCount_eq⟩,
    sink.hasErrors_iff, ?_, sink.perm_ofKind, ?_, ?_⟩
  · exact Nat.add_sub_cancel' sink.errorCount_le
  · intro kind
    refine ⟨List.filter_sublist, ?_⟩
    intro d member
    exact of_decide_eq_true (List.mem_filter.mp member).2
  · intro d built
    exact built.column_le
  · intro built d member
    rw [records] at member
    obtain ⟨given, among, rfl⟩ := List.mem_map.mp member
    obtain ⟨location, endColumn⟩ := given.columns_labelled file
    rw [location, endColumn]
    exact SinkUse.column_le_of_mem_kept built among

/-- What was there before the sink was cleared is gone, and an empty label is kept. -/
example : (((Sink.empty (some "a")).run
      [.warning "m" "" ⟨1, 1⟩, .clear, .push ⟨.lexical, "n", ⟨2, 1⟩, 1, "", some ""⟩,
        .semantic "o" "" ⟨3, 1⟩]).records.map fun d => (d.message, d.file)) =
    [("n", some ""), ("o", some "a")] := rfl

end Quill
