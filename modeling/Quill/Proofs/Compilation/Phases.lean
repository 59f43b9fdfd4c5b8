import Quill.Proofs.Grammar.Recovery
import Quill.Proofs.Typing.Unread

/-!
The phases of a compilation, in what they leave in its sink. Errors of spelling come first, then
errors of grammar. If there are none of either, the errors and the warnings of the analysis follow;
else the analysis is left out, and what is recorded is what all phases would have begun with.
-/
namespace Quill

/-- Scans a source, reads its tokens and analyses its program, also after errors. -/
def Compilation.ungated (file : Option String) (source : String) : Compilation :=
  let (tokens, sink) := (Sink.empty file).scan source
  let (program, sink) := sink.parse tokens
  let (analysis, sink) := sink.analyse .empty program
  ⟨tokens, program, analysis.symbols, sink⟩

namespace Sink

/-- A diagnostic without a label of its own gets that of the sink. -/
theorem file_stamp (sink : Sink) {d : Diagnostic} (unlabelled : d.file = none) :
    (sink.stamp d).file = sink.file := by
  simp [stamp, unlabelled]

/-- A sink of nothing but errors has errors unless it is empty. -/
theorem hasErrors_iff_of_errors {sink : Sink} (errors : ∀ d ∈ sink.records, d.isError) :
    sink.hasErrors = true ↔ sink.records ≠ [] := by
  rw [hasErrors, List.any_eq_true]
  constructor
  · rintro ⟨d, member, -⟩
    exact List.ne_nil_of_mem member
  · intro notEmpty
    obtain ⟨d, member⟩ := List.exists_mem_of_ne_nil _ notEmpty
    exact ⟨d, member, errors d member⟩

end Sink

theorem SyntaxError.file_diagnostic (error : SyntaxError) : error.diagnostic.file = none := by
  unfold diagnostic
  split <;> rfl

/-- The sites of the entries that have not been read are named as the entries are. -/
theorem Stmt.Trace.names_due {stmts : List Stmt} {table : SymbolTable} {trace : List Traced}
    (h : Trace stmts table.entries trace) :
    (due trace).map Site.name = table.unused.map (·.1) := by
  rw [SymbolTable.unused, ← h.entries_eq, List.filter_map, due, List.map_map, List.map_map]
  rfl

/-- The diagnostics that a phase gives a sink: all of one kind, with the label of the sink. -/
structure Sink.Adds (sink : Sink) (kind : DiagnosticKind) (added : List Diagnostic) : Prop where
  kinds : ∀ d ∈ added, d.kind = kind
  labels : ∀ d ∈ added, d.file = sink.file

namespace Sink.Adds

variable {α : Type} {sink : Sink} {kind : DiagnosticKind}

theorem of_map (make : α → Diagnostic) (kinds : ∀ a, (make a).kind = kind)
    (labels : ∀ a, (make a).file = none) (findings : List α) :
    sink.Adds kind (findings.map fun a => sink.stamp (make a)) := by
  constructor
  all_goals
    intro d member
    obtain ⟨a, -, rfl⟩ := List.mem_map.mp member
  · exact kinds a
  · exact sink.file_stamp (labels a)

theorem isError {added : List Diagnostic} (h : sink.Adds kind added) (isError : kind.isError) :
    ∀ d ∈ added, d.isError := by
  intro d member
  rw [Diagnostic.isError, h.kinds d member]
  exact isError

end Sink.Adds

namespace Compilation

/-- The sink after a source has been scanned and its tokens have been read. -/
def readSink (file : Option String) (source : String) : Sink :=
  let (tokens, sink) := (Sink.empty file).scan source
  (sink.parse tokens).2

variable {file : Option String} {source : String}

theorem ofSource_of_errors (h : (readSink file source).hasErrors = true) :
    ofSource file source =
      ⟨(ungated file source).tokens, (ungated file source).program, .empty,
        readSink file source⟩ :=
  if_pos h

theorem ofSource_of_clean (h : ¬ (readSink file source).hasErrors = true) :
    ofSource file source = ungated file source :=
  if_neg h

/-- What the analysis of a compilation adds: its errors, and a warning for each name that is left
unread. -/
theorem exists_sites (file : Option String) (source : String) :
    ∃ (semantic : List Diagnostic) (sites : List Site),
      (ungated file source).sink.records = (readSink file source).records ++
        (semantic ++ sites.map fun site => (readSink file source).stamp site.warning) ∧
      (readSink file source).Adds .semantic semantic ∧
      sites.map Site.name = (ungated file source).symbols.unused.map (·.1) ∧
      (∀ site ∈ sites, Stmt.DeclaredAt (ungated file source).program.statements site) ∧
      sites.Pairwise fun site later => site.index < later.index := by
  obtain ⟨trace, h⟩ := Stmt.exists_trace (ungated file source).program.statements
  let analysis := Analysis.ofProgram .empty (ungated file source).program
  let stamp := (readSink file source).stamp
  refine ⟨analysis.errors.map fun error => stamp error.diagnostic, Stmt.Trace.due trace, ?_,
    .of_map SemanticError.diagnostic (fun _ => rfl) (fun _ => rfl) _, h.names_due,
    fun site member => (h.of_mem_due member).1, h.ordered_due⟩
  have due := (congrArg (List.map stamp) h.warnings_due).trans List.map_map
  refine ((readSink file source).records_analyse .empty _).trans ?_
  rw [List.map_map]
  exact congrArg (fun warnings => (readSink file source).records ++ (_ ++ warnings)) due

/-- What scanning records, and what reading the tokens adds. -/
theorem exists_read (file : Option String) (source : String) :
    ∃ lexical syntactic, (Sink.empty file).Adds .lexical lexical ∧
      (Sink.empty file).Adds .syntactic syntactic ∧
      ((Sink.empty file).scan source).2.records = lexical ∧
      (readSink file source).records = lexical ++ syntactic := by
  let first := Sink.empty file
  let scan := Scan.ofSource source
  let lexical := scan.errors.map fun error => first.stamp error.diagnostic
  let syntactic := (Parse.ofTokens scan.tokens).errors.map fun error => first.stamp error.diagnostic
  have onLexical : first.Adds .lexical lexical :=
    .of_map LexicalError.diagnostic (fun _ => rfl) (fun _ => rfl) _
  have onSyntactic : first.Adds .syntactic syntactic :=
    .of_map _ SyntaxError.kind_diagnostic SyntaxError.file_diagnostic _
  have scanned : (first.scan source).2.records = lexical := List.map_map
  exact ⟨lexical, syntactic, onLexical, onSyntactic, scanned,
    congrArg₂ (· ++ ·) scanned List.map_map⟩

/-- What scanning and reading record stays. -/
theorem readSink_isPrefix (file : Option String) (source : String) :
    (readSink file source).records <+: (ofSource file source).sink.records := by
  by_cases errors : (readSink file source).hasErrors = true
  · simp [ofSource_of_errors errors]
  · obtain ⟨semantic, sites, added, -⟩ := exists_sites file source
    rw [ofSource_of_clean errors, added]
    exact List.prefix_append ..

/-- What is recorded is what all phases would have begun with. -/
theorem records_isPrefix (file : Option String) (source : String) :
    (ofSource file source).sink.records <+: (ungated file source).sink.records := by
  by_cases errors : (readSink file source).hasErrors = true
  · obtain ⟨semantic, sites, added, -⟩ := exists_sites file source
    rw [ofSource_of_errors errors, added]
    exact List.prefix_append ..
  · simp [ofSource_of_clean errors]

/-- The records of a compilation in their phases, and the declarations that are warned of. -/
structure Phases (file : Option String) (source : String)
    (lexical syntactic semantic : List Diagnostic) (sites : List Site) : Prop where
  records : (ofSource file source).sink.records =
    lexical ++ syntactic ++
      (semantic ++ sites.map fun site => (Sink.empty file).stamp site.warning)
  lexical_kind : ∀ d ∈ lexical, d.kind = .lexical
  syntactic_kind : ∀ d ∈ syntactic, d.kind = .syntactic
  semantic_kind : ∀ d ∈ semantic, d.kind = .semantic
  labels : ∀ d ∈ (ofSource file source).sink.records, d.file = file
  /-- Scanning records the first ones, and reading the tokens those after them. -/
  scanned : ((Sink.empty file).scan source).2.records = lexical
  parsed : (readSink file source).records = lexical ++ syntactic
  /-- There is one warning for each name that is left unread, in the order of the declarations. -/
  unread : sites.map Site.name = (ofSource file source).symbols.unused.map (·.1)
  declared : ∀ site ∈ sites, Stmt.DeclaredAt (ofSource file source).program.statements site
  ordered : sites.Pairwise fun site later => site.index < later.index
  /-- After errors of spelling or grammar nothing more is recorded, and nothing is declared. -/
  gate : lexical ++ syntactic ≠ [] →
    semantic = [] ∧ sites = [] ∧ (ofSource file source).symbols = .empty
  begins : (ofSource file source).sink.records <+: (ungated file source).sink.records
  /-- Without them the gate makes no difference. -/
  opens : lexical ++ syntactic = [] → ofSource file source = ungated file source
  succeeded_iff : (ofSource file source).succeeded = true ↔
    ∀ d ∈ (ofSource file source).sink.records, d.kind = .warning

theorem succeeded_iff {compilation : Compilation} :
    compilation.succeeded = true ↔ ∀ d ∈ compilation.sink.records, d.kind = .warning := by
  simp [succeeded, Sink.hasErrors, Diagnostic.isError, DiagnosticKind.isError_iff]

/-- The phases of a compilation are in order, and errors of spelling or grammar close the gate to
the analysis. -/
theorem exists_phases (file : Option String) (source : String) :
    ∃ lexical syntactic semantic sites, Phases file source lexical syntactic semantic sites := by
  let first := Sink.empty file
  obtain ⟨lexical, syntactic, onLexical, onSyntactic, scanned, parsed⟩ := exists_read file source
  have noisy : (readSink file source).hasErrors = true ↔ lexical ++ syntactic ≠ [] := by
    rw [← parsed]
    apply Sink.hasErrors_iff_of_errors
    rw [parsed, List.forall_mem_append]
    exact ⟨onLexical.isError rfl, onSyntactic.isError rfl⟩
  obtain ⟨semantic, sites, added, onSemantic, unread, declared, ordered⟩ := exists_sites file source
  have onWarnings : first.Adds .warning (sites.map fun site => first.stamp site.warning) :=
    .of_map Site.warning (fun _ => rfl) (fun _ => rfl) sites
  rw [parsed] at added
  have labels : ∀ d ∈ (ungated file source).sink.records, d.file = file := by
    rw [added]
    simp only [List.forall_mem_append]
    exact ⟨⟨onLexical.labels, onSyntactic.labels⟩, onSemantic.labels, onWarnings.labels⟩
  by_cases gate : lexical ++ syntactic = []
  · have same := ofSource_of_clean (mt noisy.mp (not_not.mpr gate))
    refine ⟨lexical, syntactic, semantic, sites, ?_⟩
    constructor
    case records => rw [same]; exact added
    case lexical_kind => exact onLexical.kinds
    case syntactic_kind => exact onSyntactic.kinds
    case semantic_kind => exact onSemantic.kinds
    case labels => rw [same]; exact labels
    case scanned => exact scanned
    case parsed => exact parsed
    case unread => rw [same]; exact unread
    case declared => rw [same]; exact declared
    case ordered => exact ordered
    case gate => exact fun noise => absurd gate noise
    case begins => exact records_isPrefix file source
    case opens => exact fun _ => same
    case succeeded_iff => exact succeeded_iff
  · have same := ofSource_of_errors (noisy.mpr gate)
    have begins := records_isPrefix file source
    refine ⟨lexical, syntactic, [], [], ?_⟩
    constructor
    case records => rw [same, parsed]; simp
    case lexical_kind => exact onLexical.kinds
    case syntactic_kind => exact onSyntactic.kinds
    case semantic_kind => simp
    case labels => exact fun d member => labels d (begins.subset member)
    case scanned => exact scanned
    case parsed => exact parsed
    case unread => rw [same]; rfl
    case declared => simp
    case ordered => exact .nil
    case gate => rw [same]; exact fun _ => ⟨rfl, rfl, rfl⟩
    case begins => exact begins
    case opens => exact fun clean => absurd clean gate
    case succeeded_iff => exact succeeded_iff

end Compilation

end Quill
