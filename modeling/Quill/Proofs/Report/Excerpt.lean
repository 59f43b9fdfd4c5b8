import Mathlib.Data.List.Basic
import Quill.Proofs.Number.Numeral
import Quill.Report.Render

/-!
Excerpts in plain rendering. The line of a diagnostic is shown with a row of carets directly below
it, and the first caret stands below the character that the diagnostic points at.
-/
namespace Quill

open Text

namespace ExcerptRow

/-- The characters of a row, without its line end. -/
def text (width : Nat) : ExcerptRow → List Char
  | blank => (emptyGutter width).text
  | source number line => (numberGutter width number).text ++ line
  | carets padding count => (emptyGutter width).text ++ ' ' :: (padding ++ List.replicate count '^')

def texts (width : Nat) (rows : List ExcerptRow) : List Char :=
  rows.flatMap fun row => row.text width ++ ['\n']

theorem paint_spans (width : Nat) (row : ExcerptRow) :
    (row.spans width).flatMap (Span.paint false) = row.text width ++ ['\n'] := by
  cases row <;> simp [spans, text, Span.paint, Span.plain]

end ExcerptRow

/-- A row of carets below another row: where the first caret stands, how many there are, and that
the tabs in front of it stand below tabs. -/
structure CaretRow (shown row : List Char) (offset count : Nat) : Prop where
  first : row.idxOf '^' = offset
  count : row.count '^' = count
  tabs : ∀ i < offset, row[i]? = some '\t' ↔ shown[i]? = some '\t'

/-- Larger numbers have no fewer digits. -/
theorem length_toDigits_le {n m : Nat} (h : n ≤ m) :
    (Nat.toDigits 10 n).length ≤ (Nat.toDigits 10 m).length := by
  have some_digit : 0 < (Nat.toDigits 10 m).length := Nat.length_toDigits_pos
  have bound := (Nat.length_toDigits_le_iff (by decide) some_digit).mp (Nat.le_refl _)
  exact (Nat.length_toDigits_le_iff (by decide) some_digit).mpr (Nat.lt_of_le_of_lt h bound)

namespace ExcerptRow

variable {width number : Nat}

theorem length_numberGutter (fits : (Nat.toDigits 10 number).length ≤ width) :
    (numberGutter width number).text.length = width + 4 := by
  simp [numberGutter]
  omega

theorem length_emptyGutter : (emptyGutter width).text.length = width + 3 := by
  simp [emptyGutter]

/-- A line is shown behind its gutter. -/
theorem getElem?_text_source (fits : (Nat.toDigits 10 number).length ≤ width) (echoed : List Char)
    (i : Nat) : ((source number echoed).text width)[width + 4 + i]? = echoed[i]? := by
  rw [text, ← length_numberGutter fits, List.getElem?_append_right (Nat.le_add_right _ _),
    Nat.add_sub_cancel_left]

/-- A gutter has digits, blanks and a bar. -/
theorem not_mem_numberGutter {mark : Char} (notDigit : mark.isDigit = false)
    (others : mark ∉ [' ', '|']) : mark ∉ (numberGutter width number).text := by
  have notBlank : mark ≠ ' ' := List.ne_of_not_mem_cons others
  simp only [numberGutter, List.rightpad, List.mem_append]
  rintro ((digit | filler) | bar)
  · exact Numeral.not_mem_toDigits notDigit number digit
  · exact notBlank (List.mem_replicate.mp filler).2
  · simp_all

/-- The padding has a tab for each tab of the line. -/
theorem getElem?_caretPadding {echoed : List Char} {column i : Nat} (before : i < column - 1) :
    (caretPadding echoed column)[i]? = some '\t' ↔ echoed[i]? = some '\t' := by
  rw [caretPadding, List.getElem?_map, List.getElem?_take_of_lt before]
  cases echoed[i]? with
  | none => simp
  | some c => by_cases tab : c = '\t' <;> simp [tab]

/-- A margin as wide as a gutter is in front of the padding. -/
theorem exists_margin (width : Nat) :
    ∃ margin : List Char, margin.length = width + 4 ∧ '^' ∉ margin ∧ '\t' ∉ margin ∧
      ∀ padding count, (carets padding count).text width =
        margin ++ padding ++ List.replicate count '^' := by
  refine ⟨(emptyGutter width).text ++ [' '], ?_, ?_, ?_, fun padding count => ?_⟩
  · simp [length_emptyGutter]
  · simp [emptyGutter]
  · simp [emptyGutter]
  · simp [text]

/-- In front of the carets there are tabs below tabs, and blanks and a bar otherwise. -/
theorem caretRow_text (fits : (Nat.toDigits 10 number).length ≤ width) {line : List Char}
    {column count : Nat} (long : column - 1 ≤ line.length) (present : 0 < count) :
    CaretRow ((source number line).text width)
      ((carets (caretPadding line column) count).text width) (width + 4 + (column - 1)) count := by
  obtain ⟨margin, marginLength, notMargin, noTab, row⟩ := exists_margin width
  have paddingLength : (caretPadding line column).length = column - 1 := by
    simp [caretPadding, long]
  have notPadding : '^' ∉ caretPadding line column := by
    simp only [caretPadding, List.mem_map, not_exists, not_and]
    intro c _
    split <;> decide
  have notBefore : '^' ∉ margin ++ caretPadding line column := by
    simp [notMargin, notPadding]
  rw [row]
  constructor
  case first =>
    obtain ⟨n, rfl⟩ := Nat.exists_eq_add_of_le' present
    rw [List.idxOf_append_of_notMem notBefore, List.replicate_succ, List.idxOf_cons_self,
      List.length_append, marginLength, paddingLength, Nat.add_zero]
  case count =>
    rw [List.count_append, List.count_eq_zero_of_not_mem notBefore, List.count_replicate_self,
      Nat.zero_add]
  case tabs =>
    intro i before
    have inFront : i < (margin ++ caretPadding line column).length := by
      rw [List.length_append, marginLength, paddingLength]
      exact before
    rw [List.getElem?_append_left inFront]
    by_cases inMargin : i < width + 4
    · have inGutter : i < (numberGutter width number).text.length := by
        rwa [length_numberGutter fits]
      rw [List.getElem?_append_left (marginLength ▸ inMargin), text,
        List.getElem?_append_left inGutter]
      exact ⟨fun tab => absurd (List.mem_of_getElem? tab) noTab,
        fun tab => absurd (List.mem_of_getElem? tab) (not_mem_numberGutter rfl (by decide))⟩
    · obtain ⟨j, rfl⟩ := Nat.exists_eq_add_of_le (Nat.le_of_not_lt inMargin)
      rw [getElem?_text_source fits, ← marginLength,
        List.getElem?_append_right (Nat.le_add_right _ _), Nat.add_sub_cancel_left]
      exact getElem?_caretPadding (Nat.lt_of_add_lt_add_left before)

/-- The caret stands below the `b`. -/
example : texts 1 [.source 3 "\tab".toList, .carets (caretPadding "\tab".toList 3) 1] =
    "3  | \tab\n   | \t ^\n".toList := by
  decide

end ExcerptRow

namespace Excerpt

variable {d : Diagnostic}

/-- Lines as rows, numbered from a given number on. -/
def sources (first : Nat) (lines : List (List Char)) : List ExcerptRow :=
  (lines.zipIdx first).map fun (text, number) => .source number text

/-- Lines that the diagnostic does not point at are shown alone. -/
theorem flatMap_ofLine {first : Nat} {lines : List (List Char)}
    (h : ∀ entry ∈ lines.zipIdx first, entry.2 ≠ d.location.line) :
    ((lines.zipIdx first).flatMap fun (text, number) => ExcerptRow.ofLine d number text) =
      sources first lines := by
  rw [sources, List.map_eq_flatMap]
  refine List.flatMap_congr fun entry member => ?_
  simp [ExcerptRow.ofLine, h entry member]

/-- A row that shows a line which the diagnostic does not point at, or none. -/
def IsOther (d : Diagnostic) (row : ExcerptRow) : Prop :=
  row = .blank ∨ ∃ number line, row = .source number line ∧ number ≠ d.location.line

theorem isOther_of_mem_sources {first : Nat} {lines : List (List Char)}
    (h : ∀ entry ∈ lines.zipIdx first, entry.2 ≠ d.location.line) :
    ∀ row ∈ sources first lines, IsOther d row := by
  intro row member
  obtain ⟨entry, inside, rfl⟩ := List.mem_map.mp member
  exact .inr ⟨_, _, rfl, h entry inside⟩

def firstShown (d : Diagnostic) : Nat := max (d.location.line - margin) 1

def lastShown (lines : List (List Char)) (d : Diagnostic) : Nat :=
  min (d.location.line + margin) lines.length

theorem one_le_firstShown : 1 ≤ firstShown d := Nat.le_max_right ..

theorem le_line_le {lines : List (List Char)} (numbered : 1 ≤ d.location.line)
    (inside : d.location.line ≤ lines.length) :
    firstShown d ≤ d.location.line ∧ d.location.line ≤ lastShown lines d := by
  unfold firstShown lastShown margin
  omega

/-- The lines of an excerpt: some in front of a line, the line and some behind it. -/
theorem take_drop_around {lines : List (List Char)} {number first last : Nat} (one : 1 ≤ first)
    (bounds : first ≤ number ∧ number ≤ last) (inside : number - 1 < lines.length) :
    (lines.drop (first - 1)).take (last + 1 - first) =
      (lines.take (number - 1)).drop (first - 1) ++
        lines[number - 1] :: (lines.drop number).take (last - number) := by
  let front := lines.take (number - 1)
  have length : front.length = number - 1 := List.length_take_of_le (Nat.le_of_lt inside)
  have whole : lines = front ++ lines[number - 1] :: lines.drop number := by
    have tail := List.getElem_cons_drop inside
    rw [Nat.sub_add_cancel (Nat.le_trans one bounds.1)] at tail
    rw [tail, List.take_append_drop]
  have within : first - 1 ≤ front.length := by omega
  have size : last + 1 - first = (front.drop (first - 1)).length + (last - number + 1) := by
    rw [List.length_drop]
    omega
  calc (lines.drop (first - 1)).take (last + 1 - first)
      = ((front ++ lines[number - 1] :: lines.drop number).drop (first - 1)).take
          (last + 1 - first) := by rw [← whole]
    _ = front.drop (first - 1) ++ (lines[number - 1] :: lines.drop number).take
          (last - number + 1) := by
        rw [List.drop_append_of_le_length within, size, List.take_length_add_append]
    _ = _ := by rw [List.take_succ_cons]

theorem snd_ne_of_mem_above {above : List (List Char)} {first : Nat}
    (place : first + above.length = d.location.line) :
    ∀ entry ∈ above.zipIdx first, entry.2 ≠ d.location.line := by
  intro entry member
  have number := List.snd_lt_of_mem_zipIdx member
  omega

theorem snd_ne_of_mem_below {below : List (List Char)} :
    ∀ entry ∈ below.zipIdx (d.location.line + 1), entry.2 ≠ d.location.line := by
  intro entry member
  have number := List.le_snd_of_mem_zipIdx member
  omega

/-- The rows of a line with other lines above and below. -/
theorem rows_around {above below : List (List Char)} {first : Nat} (line : List Char)
    (place : first + above.length = d.location.line) :
    (((above ++ line :: below).zipIdx first).flatMap fun (text, number) =>
        ExcerptRow.ofLine d number text) =
      sources first above ++ .source d.location.line line ::
        .carets (caretPadding line d.location.column) d.caretCount ::
        sources (d.location.line + 1) below := by
  rw [List.zipIdx_append, List.zipIdx_cons, List.flatMap_append, List.flatMap_cons, place,
    flatMap_ofLine (snd_ne_of_mem_above place), flatMap_ofLine snd_ne_of_mem_below]
  simp [ExcerptRow.ofLine]

/-- The lines above and below the line that the diagnostic points at. -/
def above (lines : List (List Char)) (d : Diagnostic) : List (List Char) :=
  (lines.drop (firstShown d - 1)).take (d.location.line - firstShown d)

def below (lines : List (List Char)) (d : Diagnostic) : List (List Char) :=
  (lines.drop d.location.line).take (lastShown lines d - d.location.line)

theorem length_above {lines : List (List Char)} (numbered : 1 ≤ d.location.line)
    (inside : d.location.line ≤ lines.length) :
    firstShown d + (above lines d).length = d.location.line := by
  have bounds := le_line_le numbered inside
  have one := one_le_firstShown (d := d)
  rw [above, List.length_take, List.length_drop]
  omega

/-- The carets follow the line that the diagnostic points at, with other lines above and below. -/
theorem of?_eq_some {lines : List (List Char)} {line : List Char} (numbered : 1 ≤ d.location.line)
    (found : lines[d.location.line - 1]? = some line) :
    of? lines d = some ⟨(Nat.toDigits 10 (lastShown lines d)).length,
      .blank :: (sources (firstShown d) (above lines d) ++ .source d.location.line line ::
        .carets (caretPadding line d.location.column) d.caretCount ::
        sources (d.location.line + 1) (below lines d)) ++ [.blank]⟩ := by
  obtain ⟨within, rfl⟩ := List.getElem?_eq_some_iff.mp found
  have inside : d.location.line ≤ lines.length := by omega
  have present : ¬ (d.location.line = 0 ∨ lines.length < d.location.line) := by omega
  have one := one_le_firstShown (d := d)
  have shown := take_drop_around one (le_line_le numbered inside) within
  have front : d.location.line - 1 - (firstShown d - 1) = d.location.line - firstShown d := by
    omega
  rw [List.drop_take, front] at shown
  rw [of?, if_neg present, ← rows_around _ (length_above numbered inside), above, below, ← shown]
  rfl

theorem exists_of?_eq_some {lines : List (List Char)} {line : List Char}
    (numbered : 1 ≤ d.location.line) (found : lines[d.location.line - 1]? = some line) :
    ∃ width above below,
      of? lines d = some ⟨width, above ++ .source d.location.line line ::
        .carets (caretPadding line d.location.column) d.caretCount ::
        below⟩ ∧
      (Nat.toDigits 10 d.location.line).length ≤ width ∧ ∀ row ∈ above ++ below, IsOther d row := by
  have inside : d.location.line ≤ lines.length := by
    have within := (List.getElem?_eq_some_iff.mp found).1
    omega
  have onAbove := isOther_of_mem_sources (snd_ne_of_mem_above (length_above numbered inside))
  have onBelow : ∀ row ∈ sources (d.location.line + 1) (below lines d), IsOther d row :=
    isOther_of_mem_sources snd_ne_of_mem_below
  refine ⟨_, .blank :: sources (firstShown d) (above lines d),
    sources (d.location.line + 1) (below lines d) ++ [.blank], ?_,
    length_toDigits_le (le_line_le numbered inside).2, ?_⟩
  · rw [of?_eq_some numbered found]
    simp
  · simp only [List.cons_append, List.forall_mem_cons, List.forall_mem_append]
    exact ⟨.inl rfl, onAbove, onBelow, .inl rfl, List.forall_mem_nil _⟩

end Excerpt

theorem Text.Span.paint_false (span : Span) : span.paint false = span.text := by
  simp [paint]

theorem Excerpt.paint_spans (excerpt : Excerpt) :
    excerpt.spans.flatMap (Span.paint false) = ExcerptRow.texts excerpt.width excerpt.rows := by
  rw [spans, List.flatMap_assoc]
  exact List.flatMap_congr fun row _ => row.paint_spans excerpt.width

namespace Diagnostic

variable {d : Diagnostic} {lines : List (List Char)} {echoed : List Char}

/-- The characters in front of the excerpt, and those behind it. -/
def headText (d : Diagnostic) : List Char := d.headSpans.flatMap Span.text

def suggestionText (d : Diagnostic) : List Char := d.suggestionSpans.flatMap Span.text

/-- The plain rendering of a diagnostic shows its line, with a gutter in front of it, and directly
below that the carets. Of the rows above and below, none has carets or shows the line again. -/
structure Shows (d : Diagnostic) (lines : List (List Char)) (echoed : List Char) (width : Nat)
    (above below : List ExcerptRow) : Prop where
  found : lines[d.location.line - 1]? = some echoed
  long : d.location.column - 1 ≤ echoed.length
  rendering : (d.render lines false).toList =
    d.headText ++ ExcerptRow.texts width (above ++ .source d.location.line echoed ::
      .carets (caretPadding echoed d.location.column) (d.endColumn - d.location.column + 1) ::
      below) ++ d.suggestionText
  others : ∀ row ∈ above ++ below, Excerpt.IsOther d row
  shown : ∀ i, ((ExcerptRow.source d.location.line echoed).text width)[width + 4 + i]? = echoed[i]?
  carets : CaretRow ((ExcerptRow.source d.location.line echoed).text width)
    ((ExcerptRow.carets (caretPadding echoed d.location.column)
      (d.endColumn - d.location.column + 1)).text width)
    (width + 4 + (d.location.column - 1)) (d.endColumn - d.location.column + 1)

theorem toList_render :
    (d.render lines false).toList =
      d.headText ++ (d.excerptSpans lines).flatMap (Span.paint false) ++ d.suggestionText := by
  have plain : Span.paint false = Span.text := funext Span.paint_false
  simp only [render, paint, spans, String.toList_ofList, List.flatMap_append, headText,
    suggestionText, plain]

/-- Each diagnostic whose line is one of the source is shown so, if it points at columns from the
first on: their number has room in a word. -/
theorem exists_shows (numbered : 1 ≤ d.location.line)
    (found : lines[d.location.line - 1]? = some echoed)
    (long : d.location.column - 1 ≤ echoed.length) (counted : 1 ≤ d.location.column)
    (ordered : d.location.column ≤ d.endColumn) :
    ∃ width above below, d.Shows lines echoed width above below := by
  have count : d.caretCount = d.endColumn - d.location.column + 1 :=
    caretCount_eq ordered fun word => by omega
  obtain ⟨width, above, below, excerpt, fits, others⟩ := Excerpt.exists_of?_eq_some numbered found
  refine ⟨width, above, below, found, long, ?_, others, ExcerptRow.getElem?_text_source fits echoed,
    ExcerptRow.caretRow_text fits long (Nat.succ_pos _)⟩
  rw [toList_render, excerptSpans, excerpt, ← count]
  exact congrArg (d.headText ++ · ++ d.suggestionText) (Excerpt.paint_spans _)

/-- A diagnostic on a line that the source does not have is shown without an excerpt. -/
theorem toList_render_of_absent (h : d.location.line = 0 ∨ lines.length < d.location.line) :
    (d.render lines false).toList = d.headText ++ d.suggestionText := by
  have missing : Excerpt.of? lines d = none := by
    rw [Excerpt.of?, if_pos h]
  rw [toList_render, excerptSpans, missing, List.flatMap_nil, List.append_nil]

end Diagnostic

end Quill
