import Quill.Proofs.Compilation.Phases
import Quill.Proofs.Grammar.Unplaced
import Quill.Proofs.Lexeme.Layout
import Quill.Proofs.Typing.Unplaced

/-!
Layout makes no difference to the meaning of a source. Two sources with the same tokens are compiled
alike: the places in the results are all that tells them apart.
-/
namespace Quill

namespace Expr

mutual

theorem dump_unplaced (depth : Nat) : ∀ e : Expr, e.unplaced.dump depth = e.dump depth
  | literal .. => rfl
  | identifier .. => rfl
  | binary left operator right location => by
    rw [unplaced, dump, dump, dump_unplaced _ left, dump_unplaced _ right]
  | array elements location => by
    rw [unplaced, dump, dump, dumpAll_unplaced _ elements, length_unplacedAll elements]

theorem dumpAll_unplaced (depth : Nat) : ∀ elements : List Expr,
    dumpAll depth (unplacedAll elements) = dumpAll depth elements
  | [] => rfl
  | e :: rest => by
    rw [unplacedAll, dumpAll, dumpAll, dump_unplaced depth e, dumpAll_unplaced depth rest]

theorem length_unplacedAll : ∀ elements : List Expr, (unplacedAll elements).length = elements.length
  | [] => rfl
  | _ :: rest => congrArg (· + 1) (length_unplacedAll rest)

end

end Expr

theorem Interpolation.dumpContent_unplaced (depth : Nat) (parts : List String)
    (expressions : List Expr) :
    dumpContent depth parts (Expr.unplacedAll expressions) =
      dumpContent depth parts expressions := by
  induction parts generalizing expressions with
  | nil => exact Expr.dumpAll_unplaced depth expressions
  | cons part parts ih =>
    cases expressions with
    | nil => rfl
    | cons e rest =>
      have onFirst := e.dump_unplaced depth
      have onRest := ih rest
      simp only [Expr.unplacedAll, dumpContent, List.head?_cons, List.tail_cons, Option.map,
        onFirst, onRest]

theorem Stmt.dump_unplaced (depth : Nat) (stmt : Stmt) :
    stmt.unplaced.dump depth = stmt.dump depth := by
  cases stmt with
  | scalar name type value location => exact congrArg (_ :: ·) (value.dump_unplaced (depth + 1))
  | array name init location =>
    cases init with
    | values value => exact congrArg (_ :: ·) (value.dump_unplaced (depth + 1))
    | sized => rfl
  | output content location =>
    simp only [unplaced, dump, Interpolation.dump, Interpolation.unplaced,
      Interpolation.dumpContent_unplaced, Expr.length_unplacedAll]

/-- The dump of a program shows no places. -/
theorem Program.dump_unplaced (program : Program) : program.unplaced.dump = program.dump := by
  simp only [dump, dumpLines, unplaced, List.length_map, List.flatMap_map, Stmt.dump_unplaced]

/-- A listing shows kinds and texts of tokens. -/
theorem tokenListing_unplaced (tokens : List Token) :
    tokenListing (tokens.map Token.unplaced) = tokenListing tokens := by
  simp only [tokenListing, List.filter_map, List.map_map]
  rfl

/-- A diagnostic with its columns and its line dropped. -/
def Diagnostic.unplaced (d : Diagnostic) : Diagnostic :=
  { d with location := .start, endColumn := 1 }

/-- The message tells the blamed token by its text, so only the columns and the line differ. -/
theorem SyntaxError.diagnostic_unplaced (error : SyntaxError) :
    error.unplaced.diagnostic.unplaced = error.diagnostic.unplaced := by
  unfold diagnostic
  rw [blamed?_unplaced, message_unplaced]
  cases error.blamed? <;> rfl

theorem SemanticError.diagnostic_unplaced (error : SemanticError) :
    error.unplaced.diagnostic.unplaced = error.diagnostic.unplaced := rfl

namespace Sink

def unplaced (sink : Sink) : Sink := { sink with records := sink.records.map Diagnostic.unplaced }

/-- The label that a diagnostic gets from the sink is no place. -/
theorem unplaced_pushAll (sink : Sink) (ds : List Diagnostic) :
    (sink.pushAll ds).unplaced = sink.unplaced.pushAll (ds.map Diagnostic.unplaced) := by
  simp only [unplaced, pushAll, List.map_append, List.map_map]
  rfl

/-- What the gate in front of the analysis looks at does not depend on places. -/
theorem hasErrors_unplaced (sink : Sink) : sink.unplaced.hasErrors = sink.hasErrors := by
  simp only [hasErrors, unplaced, List.any_map]
  rfl

theorem parse_unplaced (sink : Sink) (tokens : List Token) :
    (sink.parse (tokens.map Token.unplaced)).1 = (sink.parse tokens).1.unplaced ∧
    (sink.parse (tokens.map Token.unplaced)).2.unplaced = (sink.parse tokens).2.unplaced := by
  obtain ⟨program, errors⟩ := Parse.ofTokens_unplaced tokens
  refine ⟨program, ?_⟩
  simp only [parse, unplaced_pushAll, errors, List.map_map, Function.comp_def,
    SyntaxError.diagnostic_unplaced]

/-- The two sinks differ before the analysis already, by the places of what they hold. -/
theorem analyse_unplaced {sink other : Sink} (same : other.unplaced = sink.unplaced)
    (symbols : SymbolTable) (program : Program) :
    (other.analyse symbols.unplaced program.unplaced).1 =
      (sink.analyse symbols program).1.unplaced ∧
    (other.analyse symbols.unplaced program.unplaced).2.unplaced =
      (sink.analyse symbols program).2.unplaced := by
  have analysis := Analysis.ofProgram_unplaced symbols program
  refine ⟨analysis, ?_⟩
  have unused : ∀ entry, (unusedWarning (SymbolTable.unplacedEntry entry)).unplaced =
      (unusedWarning entry).unplaced := fun _ => rfl
  simp only [analyse, analysis, Analysis.unplaced, Analysis.unused, SymbolTable.unused_unplaced,
    unplaced_pushAll, same, List.map_map, Function.comp_def, SemanticError.diagnostic_unplaced,
    unused]

end Sink

/-- Two compilations that tell the same, but for places. -/
structure Compilation.Alike (one other : Compilation) : Prop where
  succeeded : one.succeeded = other.succeeded
  tokenListing : one.tokenListing = other.tokenListing
  program : one.program.unplaced = other.program.unplaced
  dump : one.dump = other.dump
  symbols : one.symbols.unplaced = other.symbols.unplaced
  records : one.sink.records.map Diagnostic.unplaced = other.sink.records.map Diagnostic.unplaced

namespace Compilation

def ofTokens (file : Option String) (tokens : List Token) : Compilation :=
  let (program, sink) := (Sink.empty file).parse tokens
  if sink.hasErrors then ⟨tokens, program, .empty, sink⟩
  else
    let (analysis, sink) := sink.analyse .empty program
    ⟨tokens, program, analysis.symbols, sink⟩

/-- A source without errors of spelling is compiled by its tokens alone. -/
theorem ofSource_eq_ofTokens (file : Option String) {source : String}
    (clean : (Scan.ofSource source).errors = []) :
    ofSource file source = ofTokens file (Scan.ofSource source).tokens := by
  have quiet : ((Sink.empty file).scan source) = ((Scan.ofSource source).tokens, .empty file) := by
    rw [Sink.scan, clean]
    exact congrArg (Prod.mk _) (Sink.empty file).pushAll_nil
  unfold ofSource ofTokens
  rw [quiet]

/-- A compilation with all places in it dropped. -/
structure Drops (compilation bare : Compilation) : Prop where
  tokens : bare.tokens = compilation.tokens.map Token.unplaced
  program : bare.program = compilation.program.unplaced
  symbols : bare.symbols = compilation.symbols.unplaced
  sink : bare.sink.unplaced = compilation.sink.unplaced

/-- Dropping the places of the tokens first, or those of the compilation afterwards, comes to the
same. -/
theorem drops_ofTokens (file : Option String) (tokens : List Token) :
    Drops (ofTokens file tokens) (ofTokens file (tokens.map Token.unplaced)) := by
  obtain ⟨program, sink⟩ := (Sink.empty file).parse_unplaced tokens
  obtain ⟨analysis, analysed⟩ :=
    Sink.analyse_unplaced sink .empty ((Sink.empty file).parse tokens).1
  have noSymbols : SymbolTable.empty.unplaced = .empty := rfl
  have verdict : ((Sink.empty file).parse (tokens.map Token.unplaced)).2.hasErrors =
      ((Sink.empty file).parse tokens).2.hasErrors := by
    rw [← Sink.hasErrors_unplaced, sink, Sink.hasErrors_unplaced]
  rw [noSymbols, ← program] at analysis analysed
  unfold ofTokens
  dsimp only
  rw [verdict]
  split
  · exact ⟨rfl, program, rfl, sink⟩
  · exact ⟨rfl, program, congrArg Analysis.symbols analysis, analysed⟩

/-- Two compilations that come to the same one without places tell the same. -/
theorem Drops.alike {one other bare : Compilation} (h : Drops one bare) (also : Drops other bare) :
    Alike one other := by
  have program := h.program.symm.trans also.program
  have sink := h.sink.symm.trans also.sink
  constructor
  case succeeded =>
    rw [succeeded, succeeded, ← Sink.hasErrors_unplaced, sink, Sink.hasErrors_unplaced]
  case tokenListing =>
    rw [tokenListing, ← tokenListing_unplaced, ← h.tokens, also.tokens, tokenListing_unplaced,
      ← tokenListing]
  case program => exact program
  case dump => rw [dump, ← Program.dump_unplaced, program, Program.dump_unplaced, ← dump]
  case symbols => exact h.symbols.symm.trans also.symbols
  case records => exact congrArg Sink.records sink

/-- Sources whose tokens are the same, and that are scanned without an error, are compiled alike. -/
theorem alike_of_bare (file : Option String) (a b : String)
    (same : (Scan.ofSource a).tokens.map Token.bare = (Scan.ofSource b).tokens.map Token.bare)
    (clean : (Scan.ofSource a).errors = []) (alsoClean : (Scan.ofSource b).errors = []) :
    Alike (ofSource file a) (ofSource file b) := by
  let placeless := fun t : BareToken => Token.upTo 1 t.kind t.lexeme .start
  have unplaced : (Scan.ofSource a).tokens.map Token.unplaced =
      (Scan.ofSource b).tokens.map Token.unplaced := by
    have dropped := congrArg (List.map placeless) same
    rwa [List.map_map, List.map_map] at dropped
  have onA := drops_ofTokens file (Scan.ofSource a).tokens
  have onB := drops_ofTokens file (Scan.ofSource b).tokens
  rw [ofSource_eq_ofTokens file clean, ofSource_eq_ofTokens file alsoClean]
  exact onA.alike (unplaced ▸ onB)

/-- Tokens of all kinds of lexeme, laid out in one way and with each on a line of its own. They are
no program, and that is told in the same way of both sources. -/
theorem alike_laidSource :
    (Scan.ofSource laidSource).tokens.map Token.bare =
      (Scan.ofSource (String.ofList (BareToken.lines laidTokens))).tokens.map Token.bare ∧
    (Scan.ofSource laidSource).errors = [] ∧
    (Scan.ofSource (String.ofList (BareToken.lines laidTokens))).errors = [] ∧
    Alike (ofSource none laidSource)
      (ofSource none (String.ofList (BareToken.lines laidTokens))) := by
  have decimal : WellSpelled .floatLiteral "03.50".toList :=
    @WellSpelled.decimal ['0', '3'] ['5', '0'] (by decide) (by decide) (by decide) (by decide)
  have text : ∀ t ∈ laidTokens, t.HasText := by
    simp only [laidTokens, List.forall_mem_cons]
    exact ⟨.inr (@WellSpelled.lineComment '/' [' ', ';', '1'] (by decide) (by decide)),
      .inr (.reserved (by decide)), .inr decimal,
      .inr (@WellSpelled.blockComment ['\n'] (by decide) (by decide)), .inl rfl, by simp⟩
  have lines : Laid laidTokens (String.ofList (BareToken.lines laidTokens)).toList := by
    rw [String.toList_ofList]
    exact BareToken.laid_lines text
  obtain ⟨same, clean⟩ := laid_laidTokens.give .start
  obtain ⟨alsoSame, alsoClean⟩ := lines.give .start
  have tokens := same.trans alsoSame.symm
  exact ⟨tokens, clean, alsoClean, alike_of_bare none _ _ tokens clean alsoClean⟩

end Compilation

end Quill
