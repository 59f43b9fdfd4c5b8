import Quill.Compilation
import Quill.Proofs.Grammar.Content
import Quill.Proofs.Grammar.Recovery

/-!
The order in which the dump lists the content of an output. Parts and names take turns in it, a part
first, while in the source a run of text may make no part. So the lines come in the order of the
source exactly if no part stands behind a run that makes none (`Interpolation.PartsFirst`); the text
behind a marker that opens the content is listed too early.
-/
namespace Quill

namespace Interpolation

def partLine (depth : Nat) (part : String) : DumpLine := ⟨depth, "TEXT_PART \"" ++ part ++ "\""⟩

/-- The lines of runs of text and names in the order of the source: a run, a name, a run and so on.
A run that makes no part has no line. -/
def linesInOrder (depth : Nat) : List (Option String) → List Expr → List DumpLine
  | [], names => Expr.dumpAll depth names
  | run :: runs, names =>
    (run.map (partLine depth)).toList ++
      ((names.head?.map (Expr.dump depth)).getD [] ++ linesInOrder depth runs names.tail)

/-- The runs of a content that make a part all come before those that make none. -/
def PartsFirst (runs : List (Option String)) : Prop :=
  runs.Pairwise fun run later => later.isSome → run.isSome

variable {depth : Nat} {runs : List (Option String)} {names : List Expr}

theorem partLine_ne_name (part name : String) (place : Location) :
    [partLine depth part] ≠ (Expr.identifier name place).dump depth := by
  intro same
  rw [Expr.dump, partLine] at same
  have texts := congrArg String.toList (congrArg DumpLine.text (List.cons.inj same).1)
  simp at texts

/-- Runs without text leave the names. -/
theorem linesInOrder_of_none (noText : ∀ run ∈ runs, run = none) (names : List Expr) :
    linesInOrder depth runs names = Expr.dumpAll depth names := by
  induction runs generalizing names with
  | nil => rfl
  | cons run runs ih =>
    rw [List.forall_mem_cons] at noText
    rw [linesInOrder, noText.1, ih noText.2]
    cases names <;> rfl

theorem partsFirst_some (part : String) : PartsFirst (some part :: runs) ↔ PartsFirst runs := by
  simp [PartsFirst]

/-- Behind a run that makes no part there is none that makes one. -/
theorem partsFirst_none : PartsFirst (none :: runs) ↔ ∀ run ∈ runs, run = none := by
  simp only [PartsFirst, List.pairwise_cons, Option.isSome_none, Bool.false_eq_true, imp_false,
    Option.not_isSome_iff_eq_none]
  constructor
  · intro h
    exact h.1
  · intro noText
    refine ⟨noText, List.pairwise_of_forall_mem_list fun run _ later member => ?_⟩
    simp [noText later member]

/-- The dump lists parts and names in the order of the source exactly if no run with a part comes
behind one without: there it would list the part before the name in front of it. -/
theorem dumpContent_eq_linesInOrder_iff
    (isName : ∀ e ∈ names, ∃ name place, e = .identifier name place)
    (turns : runs.length = names.length + 1) :
    dumpContent depth (runs.filterMap id) names = linesInOrder depth runs names ↔
      PartsFirst runs := by
  induction runs generalizing names with
  | nil => cases turns
  | cons run runs ih =>
    cases run with
    | some part =>
      have front : (some part :: runs).filterMap id = part :: runs.filterMap id := rfl
      rw [partsFirst_some, front, dumpContent, linesInOrder]
      cases names with
      | nil =>
        obtain rfl := List.length_eq_zero_iff.mp (Nat.succ.inj turns)
        simp [dumpContent, linesInOrder, PartsFirst, partLine]
      | cons name rest =>
        rw [List.forall_mem_cons] at isName
        rw [← ih isName.2 (Nat.succ.inj turns)]
        simp [partLine]
    | none =>
      have front : (none :: runs).filterMap id = runs.filterMap id := rfl
      rw [partsFirst_none, front]
      cases parts : runs.filterMap id with
      | nil =>
        have empty : ∀ run ∈ runs, run = none := List.filterMap_eq_nil_iff.mp parts
        rw [linesInOrder_of_none (List.forall_mem_cons.mpr ⟨rfl, empty⟩)]
        exact iff_of_true rfl empty
      | cons part parts =>
        refine iff_of_false (fun same => ?_) fun empty => ?_
        · cases names with
          | nil =>
            obtain rfl := List.length_eq_zero_iff.mp (Nat.succ.inj turns)
            cases parts
          | cons name rest =>
            obtain ⟨text, place, rfl⟩ := isName name (List.mem_cons_self ..)
            rw [dumpContent, linesInOrder] at same
            exact partLine_ne_name part text place (congrArg (List.take 1) same)
        · have noPart : runs.filterMap id = [] := List.filterMap_eq_nil_iff.mpr empty
          rw [noPart] at parts
          cases parts

end Interpolation

namespace Segment

/-- What the runs of text of a content make. -/
def parts (pieces : List Segment) : List (Option String) := (runs pieces).map Interpolation.part?

/-- The lines of a content in the order of its source. -/
def linesInOrder (depth : Nat) (pieces : List Segment) : List DumpLine :=
  Interpolation.linesInOrder depth (parts pieces) (pieces.filterMap name?)

theorem dumpContent_ofRuns_iff (depth : Nat) (pieces : List Segment) (place : Location) :
    Interpolation.dumpContent depth (Interpolation.ofRuns pieces place).parts
        (Interpolation.ofRuns pieces place).expressions = linesInOrder depth pieces ↔
      Interpolation.PartsFirst (parts pieces) := by
  have turns : (parts pieces).length = (pieces.filterMap name?).length + 1 := by
    rw [parts, List.length_map, length_runs]
  rw [linesInOrder, ← Interpolation.dumpContent_eq_linesInOrder_iff (fun _ => isName_of_mem) turns,
    parts, List.filterMap_map]
  rfl

end Segment

/-- The tokens of an output, with the pieces of its content in their order. -/
def OutputAt (tokens : List Token) (place : Location) (pieces : List Segment) : Prop :=
  ∃ stdout opening closing word,
    stdout :: opening :: (word ++ [closing]) <:+: tokens ∧ stdout.location = place ∧
    stdout.kind = .stdout ∧ opening.kind = .bracketOpen ∧ closing.kind = .bracketClose ∧
    ContentWord word pieces

/-- The lines under an output that is read from tokens come in the order of the tokens exactly if no
run of text that makes a part stands behind one that makes none. -/
theorem Parse.dump_inOrder_iff (tokens : List Token) {content : Interpolation} {place : Location}
    (member : .output content place ∈ (ofTokens tokens).program.statements) :
    ∃ pieces, OutputAt tokens place pieces ∧
      ∀ depth, (content.dump depth).tail = Segment.linesInOrder (depth + 1) pieces ↔
        Interpolation.PartsFirst (Segment.parts pieces) := by
  obtain ⟨whole, written, inside⟩ := exists_word tokens _ member
  cases written with
  | @output stdout opening closing first word pieces hstdout hopening hcontent hclosing =>
    have output : OutputAt tokens stdout.location pieces :=
      ⟨stdout, opening, closing, word, inside, rfl, hstdout, hopening, hclosing, hcontent⟩
    exact ⟨pieces, output, fun depth =>
      Segment.dumpContent_ofRuns_iff (depth + 1) pieces first.location⟩

def markerFirst : List Token :=
  [.spelled .stdout "stdout" ⟨1, 1⟩, .spelled .bracketOpen "[" ⟨1, 7⟩,
    .spelled .braceOpen "\x7b" ⟨1, 8⟩, .spelled .identifier "a" ⟨1, 9⟩,
    .spelled .braceClose "\x7d" ⟨1, 10⟩, .spelled .identifier "b" ⟨1, 12⟩,
    .spelled .bracketClose "]" ⟨1, 13⟩, .endMark ⟨1, 14⟩]

theorem tokens_markerFirst :
    (Scan.ofSource "stdout[\x7ba\x7d b]").tokens = markerFirst ∧
      (Scan.ofSource "stdout[\x7ba\x7d b]").errors = [] := by
  constructor <;> decide +kernel

theorem statements_markerFirst :
    (Parse.ofTokens markerFirst).program.statements =
        [.output ⟨["b"], [.identifier "a" ⟨1, 9⟩], ⟨1, 8⟩⟩ ⟨1, 1⟩] ∧
      (Parse.ofTokens markerFirst).errors = [] := by
  constructor <;> with_unfolding_all rfl

/-- A marker opens the content, and the dump lists the text behind it in front of the name. -/
theorem Parse.dump_markerFirst :
    (Scan.ofSource "stdout[\x7ba\x7d b]").tokens = markerFirst ∧
    (Scan.ofSource "stdout[\x7ba\x7d b]").errors = [] ∧ (ofTokens markerFirst).errors = [] ∧
    ∃ content place pieces,
      (ofTokens markerFirst).program.statements = [.output content place] ∧
      ContentWord ((markerFirst.drop 2).take 4) pieces ∧
      (content.dump 2).tail = [⟨3, "TEXT_PART \"b\""⟩, ⟨3, "IDENTIFIER 'a'"⟩] ∧
      Segment.linesInOrder 3 pieces = [⟨3, "IDENTIFIER 'a'"⟩, ⟨3, "TEXT_PART \"b\""⟩] := by
  obtain ⟨tokens, clean⟩ := tokens_markerFirst
  obtain ⟨statements, alsoClean⟩ := statements_markerFirst
  have word : ContentWord ((markerFirst.drop 2).take 4) [.marker "a" ⟨1, 9⟩, .text "b"] :=
    .marker rfl rfl rfl (.text (by decide) (by decide) (by decide) .nil)
  exact ⟨tokens, clean, alsoClean, _, _, _, statements, word, rfl, rfl⟩

theorem Parse.dump_inOrder_markerFirst :
    .output ⟨["b"], [.identifier "a" ⟨1, 9⟩], ⟨1, 8⟩⟩ ⟨1, 1⟩ ∈
        (ofTokens markerFirst).program.statements ∧
      ∃ pieces, OutputAt markerFirst ⟨1, 1⟩ pieces ∧
        ∀ depth, (Interpolation.dump depth ⟨["b"], [.identifier "a" ⟨1, 9⟩], ⟨1, 8⟩⟩).tail =
            Segment.linesInOrder (depth + 1) pieces ↔
          Interpolation.PartsFirst (Segment.parts pieces) := by
  have member : .output ⟨["b"], [.identifier "a" ⟨1, 9⟩], ⟨1, 8⟩⟩ ⟨1, 1⟩ ∈
      (ofTokens markerFirst).program.statements := by
    rw [statements_markerFirst.1]
    exact List.mem_singleton_self _
  exact ⟨member, dump_inOrder_iff markerFirst member⟩

end Quill
