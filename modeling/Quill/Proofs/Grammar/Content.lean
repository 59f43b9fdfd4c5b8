import Quill.Proofs.Grammar.Reader
import Quill.Proofs.Grammar.Word

/-!
The content of outputs: which tokens are pieces of it, and which interpolation the pieces make. The
interpolation is made piece by piece; `ofSegments_eq_ofRuns` says what comes out for the content as
a whole.
-/
namespace Quill

namespace Reader

/-- What ends a content: a closing bracket, an end mark or the end of the list. -/
def EndsContent (rest : List Token) : Prop :=
  ∀ t ∈ rest.head?, t.kind = .bracketClose ∨ t.kind = .endOfInput

theorem segments_word {tokens rest : List Token} {pieces : List Segment}
    (h : segments tokens = .done pieces rest) :
    ∃ word, tokens = word ++ rest ∧ ContentWord word pieces := by
  fun_induction segments tokens generalizing pieces rest with
  | case1 => cases h; exact ⟨[], rfl, .nil⟩
  | case2 => cases h; exact ⟨[], rfl, .nil⟩
  | case3 => cases h; exact ⟨[], rfl, .nil⟩
  | case4 => cases h
  | case5 => cases h
  | case6 => cases h
  | case7 => cases h
  | case8 first opening name notOther last more notOpen ih =>
    obtain ⟨others, mid, read, made⟩ := Outcome.andThen_eq_done_iff.mp h
    cases made
    obtain ⟨word, rfl, hword⟩ := ih read
    exact ⟨first :: name :: last :: word, rfl, .marker opening (Decidable.not_not.mp notOther)
      (Decidable.not_not.mp notOpen) hword⟩
  | case9 t more noClose noMark noOpen ih =>
    obtain ⟨others, mid, read, made⟩ := Outcome.andThen_eq_done_iff.mp h
    cases made
    obtain ⟨word, rfl, hword⟩ := ih read
    exact ⟨t :: word, rfl, .text noOpen noClose noMark hword⟩

end Reader

theorem ContentWord.read {word rest : List Token} {pieces : List Segment}
    (h : ContentWord word pieces) (ends : Reader.EndsContent rest) :
    Reader.segments (word ++ rest) = .done pieces rest := by
  induction h with
  | nil =>
    cases rest with
    | nil => rfl
    | cons t more =>
      rw [List.nil_append, Reader.segments.eq_def]
      rcases ends t rfl with kind | kind <;> simp only [kind]
  | text notOpen notClose notMark h ih =>
    rw [List.cons_append, Reader.segments.eq_def]
    dsimp only
    split
    · next kind => exact absurd kind notClose
    · next kind => exact absurd kind notMark
    · next kind => exact absurd kind notOpen
    · rw [ih, Outcome.andThen_done]
  | marker opening identifier closing h ih =>
    rw [List.cons_append, Reader.segments.eq_def]
    simp [opening, identifier, closing, ih]

namespace Interpolation

/-- A text with one more lexeme, after a blank unless there is no text yet. -/
def extend (text lexeme : String) : String :=
  if text = "" then lexeme else text ++ " " ++ lexeme

/-- A text as a part, unless it is empty. -/
def ofText? (text : String) : Option String :=
  if text = "" then none else some text

theorem foldl_extend_of_ne {text : String} (h : text ≠ "") (run : List String) :
    run.foldl extend text = " ".intercalate (text :: run) := by
  induction run generalizing text with
  | nil => simp
  | cons lexeme run ih =>
    have longer : text ++ " " ++ lexeme ≠ "" := by simp [h]
    rw [List.foldl_cons, extend, if_neg h, ih longer, String.intercalate_cons_append,
      String.intercalate_cons_cons]

theorem intercalate_cons_ne {text : String} (h : text ≠ "") (run : List String) :
    " ".intercalate (text :: run) ≠ "" := by
  cases run with
  | nil => simpa using h
  | cons lexeme run => simp [String.intercalate_cons_cons, h]

theorem part?_eq (run : List String) : part? run = ofText? (run.foldl extend "") := by
  induction run with
  | nil => rfl
  | cons lexeme run ih =>
    by_cases empty : lexeme = ""
    · subst empty
      simpa [part?, extend] using ih
    · have some_text := intercalate_cons_ne empty run
      simp [part?, empty, extend, foldl_extend_of_ne empty, ofText?, some_text]

end Interpolation

namespace Segment

/-- There is a run before the first marker, if only an empty one. -/
theorem runs_ne_nil (pieces : List Segment) : runs pieces ≠ [] := by
  cases pieces with
  | nil => simp [runs]
  | cons piece more => cases piece <;> simp [runs]

/-- There is one run of text more than there are markers. -/
theorem length_runs (pieces : List Segment) :
    (runs pieces).length = (pieces.filterMap name?).length + 1 := by
  induction pieces with
  | nil => rfl
  | cons piece pieces ih =>
    cases piece with
    | text lexeme =>
      have some_run := List.length_pos_iff.mpr (runs_ne_nil pieces)
      simp only [runs, List.length_cons, List.length_tail]
      rw [Nat.sub_add_cancel some_run, ih]
      rfl
    | marker name location => exact congrArg (· + 1) ih

theorem isName_of_mem {pieces : List Segment} {e : Expr} (member : e ∈ pieces.filterMap name?) :
    ∃ name place, e = .identifier name place := by
  obtain ⟨piece, -, named⟩ := List.mem_filterMap.mp member
  cases piece with
  | text => cases named
  | marker name place => exact ⟨name, place, (Option.some.inj named).symm⟩

end Segment

theorem Interpolation.parts_eq (pieces : List Segment) :
    (Segment.runs pieces).filterMap part? =
      (ofText? (((Segment.runs pieces).headD []).foldl extend "")).toList ++
        (Segment.runs pieces).tail.filterMap part? := by
  cases h : Segment.runs pieces with
  | nil => exact absurd h (Segment.runs_ne_nil pieces)
  | cons first others =>
    rw [List.filterMap_cons, part?_eq, List.headD_cons, List.tail_cons]
    cases ofText? (first.foldl extend "") <;> rfl

namespace Draft

theorem allParts_eq (draft : Draft) :
    draft.allParts = draft.parts ++ (Interpolation.ofText? draft.pending).toList := by
  unfold allParts Interpolation.ofText?
  split <;> simp

/-- The parts after some pieces: the pending text goes on with the first run. -/
theorem allParts_foldl (draft : Draft) (pieces : List Segment) :
    (pieces.foldl add draft).allParts = draft.parts ++
      (Interpolation.ofText?
        (((Segment.runs pieces).headD []).foldl Interpolation.extend draft.pending)).toList ++
      (Segment.runs pieces).tail.filterMap Interpolation.part? := by
  induction pieces generalizing draft with
  | nil => simpa [Segment.runs] using allParts_eq draft
  | cons piece pieces ih =>
    rw [List.foldl_cons, ih]
    cases piece with
    | text lexeme => rfl
    | marker name location =>
      simp only [add, Segment.runs, List.headD_cons, List.tail_cons, List.foldl_nil]
      rw [Interpolation.parts_eq, allParts_eq, List.append_assoc]

theorem expressions_foldl (draft : Draft) (pieces : List Segment) :
    (pieces.foldl add draft).expressions = draft.expressions ++ pieces.filterMap Segment.name? := by
  induction pieces generalizing draft with
  | nil => simp
  | cons piece pieces ih =>
    rw [List.foldl_cons, ih]
    cases piece with
    | text lexeme => rfl
    | marker name location => exact List.append_assoc ..

end Draft

/-- The interpolation of a content has a part for each run of text and a name for each marker. -/
theorem Interpolation.ofSegments_eq_ofRuns (pieces : List Segment) (location : Location) :
    ofSegments pieces location = ofRuns pieces location := by
  have parts := Draft.allParts_foldl .empty pieces
  have expressions := Draft.expressions_foldl .empty pieces
  simp only [Draft.empty, List.nil_append] at parts expressions
  simp only [ofSegments, ofRuns, Draft.empty, parts, expressions, parts_eq]

namespace Reader

theorem content_eq_done_iff {tokens rest : List Token} {content : Interpolation} :
    Reader.content tokens = .done content rest ↔
      ∃ pieces, segments tokens = .done pieces rest ∧
        content = .ofRuns pieces ((tokens.head?.map (·.location)).getD .start) := by
  unfold Reader.content
  rw [Outcome.andThen_eq_done_iff]
  constructor
  · intro h
    obtain ⟨pieces, mid, read, made⟩ := h
    cases made
    exact ⟨pieces, read, Interpolation.ofSegments_eq_ofRuns ..⟩
  · intro h
    obtain ⟨pieces, read, rfl⟩ := h
    exact ⟨pieces, rest, read, by rw [Interpolation.ofSegments_eq_ofRuns]⟩

end Reader

end Quill
