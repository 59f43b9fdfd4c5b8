import Mathlib.Data.List.Forall2
import Quill.Proofs.Grammar.Recovery

/-!
The text of outputs. The markers of a content part it into runs of text, and an output keeps what
stands in it: the name of each marker, and of each run the lexemes with single blanks between them,
from the first one that is not empty (`Interpolation.Keeps`). A run of empty lexemes leaves nothing.
-/
namespace Quill

namespace Segment

def isMarker : Segment → Bool
  | text _ => false
  | marker .. => true

/-- Runs of text with markers between them, a run first. -/
def woven : List (List String) → List Segment → List Segment
  | [], markers => markers
  | run :: runs, markers => run.map text ++ (markers.head?.toList ++ woven runs markers.tail)

/-- The runs of a content and its markers make the content again. -/
theorem woven_runs (pieces : List Segment) :
    woven (runs pieces) (pieces.filter isMarker) = pieces := by
  induction pieces with
  | nil => rfl
  | cons piece pieces ih =>
    cases piece with
    | marker name location => exact congrArg (marker name location :: ·) ih
    | text lexeme =>
      have front : (text lexeme :: pieces).filter isMarker = pieces.filter isMarker := rfl
      rw [front]
      cases split : runs pieces with
      | nil => exact absurd split (runs_ne_nil pieces)
      | cons run others =>
        rw [split] at ih
        rw [runs, split]
        exact congrArg (text lexeme :: ·) ih

end Segment

namespace Interpolation

/-- What a run of text makes: nothing if all its lexemes are empty, else a part. -/
inductive Joins : List String → Option String → Prop
  | nothing {run : List String} (empty : ∀ lexeme ∈ run, lexeme = "") : Joins run none
  | part {front more : List String} {first : String} (empty : ∀ lexeme ∈ front, lexeme = "")
      (nonempty : first ≠ "") :
      Joins (front ++ first :: more) (some (" ".intercalate (first :: more)))

theorem joins_part? (run : List String) : Joins run (part? run) := by
  have whole := List.takeWhile_append_dropWhile (p := (· = "")) (l := run)
  have empty : ∀ lexeme ∈ run.takeWhile (· = ""), lexeme = "" := by
    intro lexeme member
    simpa using List.all_eq_true.mp List.all_takeWhile lexeme member
  unfold part?
  split
  · next blank =>
    rw [blank, List.append_nil] at whole
    rw [whole] at empty
    exact .nothing empty
  · next nonempty =>
    cases left : run.dropWhile (· = "") with
    | nil => exact absurd left nonempty
    | cons first more =>
      have stop := List.head?_dropWhile_not (fun lexeme : String => decide (lexeme = "")) run
      rw [left] at stop whole
      rw [← whole]
      exact .part empty (by simpa using stop)

theorem Joins.ne_empty {run : List String} {part : String} (h : Joins run (some part)) :
    part ≠ "" := by
  cases h with
  | part _ nonempty => exact intercalate_cons_ne nonempty _

/-- What an output keeps of the pieces of its content. -/
structure Keeps (content : Interpolation) (pieces : List Segment) : Prop where
  names : content.expressions = pieces.filterMap Segment.name?
  /-- The runs are what stands before, between and after the markers. -/
  whole : Segment.woven (Segment.runs pieces) (pieces.filter Segment.isMarker) = pieces
  parts : ∃ made, List.Forall₂ Joins (Segment.runs pieces) made ∧ content.parts = made.filterMap id
  nonempty : ∀ part ∈ content.parts, part ≠ ""
  few : content.parts.length ≤ content.expressions.length + 1

theorem ofRuns_keeps (pieces : List Segment) (location : Location) :
    (ofRuns pieces location).Keeps pieces := by
  have joined : List.Forall₂ Joins (Segment.runs pieces) ((Segment.runs pieces).map part?) :=
    List.forall₂_map_right_iff.mpr (List.forall₂_same.mpr fun run _ => joins_part? run)
  refine ⟨rfl, Segment.woven_runs pieces, ⟨_, joined, ?_⟩, fun part member => ?_, ?_⟩
  · rw [List.filterMap_map]
    rfl
  · obtain ⟨run, -, made⟩ := List.mem_filterMap.mp member
    exact (made ▸ joins_part? run).ne_empty
  · exact Segment.length_runs pieces ▸ List.length_filterMap_le ..

end Interpolation

/-- The tokens of an output at a place, with the pieces of its content. -/
inductive OutputWord : List Token → Location → List Segment → Prop
  | brackets {stdout opening closing : Token} {word : List Token} {pieces : List Segment}
      (hstdout : stdout.kind = .stdout) (hopening : opening.kind = .bracketOpen)
      (hcontent : ContentWord word pieces) (hclosing : closing.kind = .bracketClose) :
      OutputWord (stdout :: opening :: (word ++ [closing])) stdout.location pieces

theorem StatementWord.exists_outputWord {word : List Token} {content : Interpolation}
    {place : Location} (h : StatementWord word (.output content place)) :
    ∃ pieces, OutputWord word place pieces ∧ content.Keeps pieces := by
  cases h with
  | output hstdout hopening hcontent hclosing =>
    exact ⟨_, .brackets hstdout hopening hcontent hclosing, Interpolation.ofRuns_keeps ..⟩

theorem OutputWord.exists_statementWord {word : List Token} {place : Location}
    {pieces : List Segment} (h : OutputWord word place pieces) :
    ∃ content, StatementWord word (.output content place) ∧ content.Keeps pieces := by
  cases h with
  | @brackets stdout opening closing inner pieces hstdout hopening hcontent hclosing =>
    obtain ⟨first, hfirst, -⟩ := Reader.head?_content inner closing
    exact ⟨_, .output hstdout hopening hcontent hclosing hfirst, Interpolation.ofRuns_keeps ..⟩

/-- An output keeps its text. Each output of a program comes from tokens of its own and has a name
for each of its markers and a part for each run of text between them that is not empty; and all
tokens that write an output are read so. -/
theorem Sink.parse_keeps_text (sink : Sink) (tokens : List Token) :
    (∃ taken : List (Slice × Stmt), taken.map (·.2) = (sink.parse tokens).1.statements ∧
      (taken.Pairwise fun entry later => entry.1.stop ≤ later.1.first) ∧
      ∀ entry ∈ taken, ∀ content place, entry.2 = .output content place →
        ∃ pieces, OutputWord (entry.1.tokens tokens) place pieces ∧ content.Keeps pieces) ∧
    ∀ word place pieces, OutputWord word place pieces → ∀ mark : Token, mark.kind = .endOfInput →
      ∃ content, sink.parse (word ++ [mark]) = (.ofStatements [.output content place], sink) ∧
        content.Keeps pieces := by
  constructor
  · obtain ⟨taken, account, -⟩ := (Cursor.start tokens).exists_account
    refine ⟨taken, account.statements, account.ordered, fun entry member content place output => ?_⟩
    have word := account.words entry member
    rw [output] at word
    exact word.exists_outputWord
  · intro word place pieces output mark isMark
    obtain ⟨content, statement, keeps⟩ := output.exists_statementWord
    have program : ProgramWord word [.output content place] := by
      have alone := @ProgramWord.statement [] word [] _ _ (by simp) statement (.comments (by simp))
      rwa [List.nil_append, List.append_nil] at alone
    exact ⟨content, sink.parse_of_word program isMark, keeps⟩

end Quill
