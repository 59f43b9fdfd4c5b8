import Quill.Proofs.Report.Excerpt

/-!
Reports with colour and without. Painting puts escape sequences around stretches of text, so a text
that has none of its own is what is left of its painted form when the sequences are taken out.
-/
namespace Quill

namespace Text

/-- The characters of an escape sequence between its bracket and its end. -/
def isCode (c : Char) : Bool := c.isDigit || c == ';'

/-- What follows an escape sequence, if a text begins with one. -/
def afterEscape? : List Char → Option (List Char)
  | '\x1b' :: '[' :: rest =>
    match rest.dropWhile isCode with
    | 'm' :: more => some more
    | _ => none
  | _ => none

/-- A sequence has characters, so taking it out comes to an end. -/
theorem length_lt_of_afterEscape? {text more : List Char} (h : afterEscape? text = some more) :
    more.length < text.length := by
  unfold afterEscape? at h
  split at h
  · next rest =>
    split at h
    · next left =>
      cases h
      have shorter := (List.dropWhile_suffix (l := rest) isCode).length_le
      rw [left] at shorter
      simp only [List.length_cons] at shorter ⊢
      omega
    · cases h
  · cases h

/-- A text without its escape sequences, of which the first is taken out first. -/
def unstyled (text : List Char) : List Char :=
  match text with
  | [] => []
  | c :: rest =>
    match _ : afterEscape? (c :: rest) with
    | some more => unstyled more
    | none => c :: unstyled rest
termination_by text.length
decreasing_by
  · next found => exact length_lt_of_afterEscape? found
  · exact Nat.lt_succ_self _

/-- Escape sequences as styles are switched with. -/
def IsEscape (text : List Char) : Prop :=
  ∃ codes : List Char, text = '\x1b' :: '[' :: codes ++ ['m'] ∧ ∀ c ∈ codes, isCode c = true

theorem afterEscape?_append {sequence : List Char} (h : IsEscape sequence) (rest : List Char) :
    afterEscape? (sequence ++ rest) = some rest := by
  obtain ⟨codes, rfl, all⟩ := h
  have left : (codes ++ 'm' :: rest).dropWhile isCode = 'm' :: rest := by
    rw [List.dropWhile_append_of_pos all]
    rfl
  simp [afterEscape?, left]

/-- Escape sequences leave nothing. -/
theorem unstyled_escape {sequence : List Char} (h : IsEscape sequence) (rest : List Char) :
    unstyled (sequence ++ rest) = unstyled rest := by
  have found := afterEscape?_append h rest
  obtain ⟨codes, rfl, -⟩ := h
  rw [List.cons_append, List.cons_append] at found ⊢
  rw [unstyled]
  split
  · next more taken =>
    rw [found] at taken
    cases taken
    rfl
  · next missing =>
    rw [found] at missing
    cases missing

/-- Characters that begin no escape sequence stay. -/
theorem unstyled_cons {c : Char} (h : c ≠ '\x1b') (rest : List Char) :
    unstyled (c :: rest) = c :: unstyled rest := by
  have noEscape : afterEscape? (c :: rest) = none := by
    unfold afterEscape?
    split
    · next same =>
      cases same
      exact absurd rfl h
    · rfl
  rw [unstyled]
  split
  · next taken =>
    rw [noEscape] at taken
    cases taken
  · rfl

theorem unstyled_append {text : List Char} (h : '\x1b' ∉ text) (rest : List Char) :
    unstyled (text ++ rest) = text ++ unstyled rest := by
  induction text with
  | nil => rw [List.nil_append, List.nil_append]
  | cons c text ih =>
    obtain ⟨other, more⟩ := List.ne_and_not_mem_of_not_mem_cons h
    rw [List.cons_append, unstyled_cons (Ne.symm other), ih more, List.cons_append]

/-- All styles that there are: bold or not, in one of four colours or none. -/
theorem isEscape_opening (style : Style) : IsEscape style.opening := by
  refine ⟨_, rfl, List.all_eq_true.mp ?_⟩
  obtain ⟨bold, colour⟩ := style
  rcases colour with - | colour
  · cases bold <;> rfl
  · cases bold <;> cases colour <;> rfl

theorem isEscape_reset : IsEscape reset := ⟨['0'], rfl, List.all_eq_true.mp rfl⟩

/-- A text without escape sequences has no style switched off in it. -/
theorem reopen_of_not_mem {text : List Char} (h : '\x1b' ∉ text) (opening : List Char) :
    reopen opening text = text := by
  induction text with
  | nil => rfl
  | cons c text ih =>
    obtain ⟨other, more⟩ := List.ne_and_not_mem_of_not_mem_cons h
    rw [reopen.eq_def]
    split
    · next same =>
      cases same
      exact absurd rfl other
    · next same =>
      cases same
      rw [ih more]
    · next same => cases same

namespace Span

variable {span : Span}

theorem unstyled_paint (h : '\x1b' ∉ span.text) (rest : List Char) :
    unstyled (span.paint true ++ rest) = span.text ++ unstyled rest := by
  unfold paint
  split
  · exact unstyled_append h rest
  · dsimp only
    rw [reopen_of_not_mem h, List.append_assoc, List.append_assoc,
      unstyled_escape (isEscape_opening _), unstyled_append h, unstyled_escape isEscape_reset]

end Span

/-- No span has an escape character of its own. -/
def EscapeFree (spans : List Span) : Prop := ∀ span ∈ spans, '\x1b' ∉ span.text

namespace EscapeFree

variable {spans more : List Span}

theorem append (h : EscapeFree spans) (h' : EscapeFree more) : EscapeFree (spans ++ more) :=
  List.forall_mem_append.mpr ⟨h, h'⟩

theorem intercalate (h : EscapeFree spans) {blocks : List (List Span)}
    (h' : ∀ block ∈ blocks, EscapeFree block) : EscapeFree (spans.intercalate blocks) := by
  induction blocks with
  | nil => exact List.forall_mem_nil _
  | cons block blocks ih =>
    rw [List.forall_mem_cons] at h'
    cases blocks with
    | nil => simpa using h'.1
    | cons next blocks =>
      rw [List.intercalate_cons_cons]
      exact (h'.1.append h).append (ih h'.2)

/-- Painting adds escape sequences and nothing else. -/
theorem unstyled_paint (h : EscapeFree spans) :
    unstyled (paint true spans).toList = (paint false spans).toList := by
  rw [paint, paint, String.toList_ofList, String.toList_ofList]
  induction spans with
  | nil => rw [List.flatMap_nil, List.flatMap_nil, unstyled]
  | cons span spans ih =>
    rw [EscapeFree, List.forall_mem_cons] at h
    rw [List.flatMap_cons, List.flatMap_cons, Span.unstyled_paint h.1, ih h.2, Span.paint_false]

end EscapeFree

end Text

open Text

namespace ExcerptRow

/-- The padding has blanks and tabs only, whatever stands in the line. -/
theorem escapeFree_carets (width column count : Nat) (line : List Char) :
    EscapeFree ((carets (caretPadding line column) count).spans width) := by
  have padding : '\x1b' ∉ caretPadding line column := by
    intro member
    obtain ⟨c, -, same⟩ := List.mem_map.mp member
    split at same <;> cases same
  simp [EscapeFree, spans, emptyGutter, Span.plain, padding]

/-- The line is shown as it is, so it must have no escape character itself. -/
theorem escapeFree_source {line : List Char} (h : '\x1b' ∉ line) (width number : Nat) :
    EscapeFree ((source number line).spans width) := by
  have gutter : '\x1b' ∉ (numberGutter width number).text := not_mem_numberGutter rfl (by decide)
  simp [EscapeFree, spans, Span.plain, gutter, h]

theorem escapeFree_blank (width : Nat) : EscapeFree (blank.spans width) := by
  simp [EscapeFree, spans, emptyGutter, Span.plain]

/-- The two forms of rows that show source. -/
theorem mem_ofLine {d : Diagnostic} {number : Nat} {line : List Char} {row : ExcerptRow}
    (h : row ∈ ofLine d number line) :
    row = source number line ∨ row = carets (caretPadding line d.location.column) d.caretCount := by
  rcases List.mem_cons.mp h with first | second
  · exact .inl first
  · split at second
    · exact .inr (List.mem_singleton.mp second)
    · cases second

end ExcerptRow

/-- The rows of an excerpt are empty ones and those of lines. -/
theorem Excerpt.row_cases {lines : List (List Char)} {d : Diagnostic} {excerpt : Excerpt}
    (h : of? lines d = some excerpt) {row : ExcerptRow} (member : row ∈ excerpt.rows) :
    row = .blank ∨ ∃ line ∈ lines, ∃ number, row ∈ ExcerptRow.ofLine d number line := by
  unfold of? at h
  dsimp only at h
  split at h
  · cases h
  · cases h
    rw [List.mem_append, List.mem_cons, List.mem_singleton, List.mem_flatMap] at member
    rcases member with (first | ⟨⟨line, number⟩, inside, row⟩) | last
    · exact .inl first
    · have shown := List.fst_mem_of_mem_zipIdx inside
      exact .inr ⟨line, List.mem_of_mem_drop (List.mem_of_mem_take shown), number, row⟩
    · exact .inl last

namespace Diagnostic

variable {d : Diagnostic} {lines : List (List Char)}

structure EscapeFree (d : Diagnostic) : Prop where
  message : '\x1b' ∉ d.message.toList
  suggestion : '\x1b' ∉ d.suggestion.toList
  file : ∀ file ∈ d.file, '\x1b' ∉ file.toList

namespace EscapeFree

/-- Apart from the label a place has digits and colons. -/
theorem place (h : d.EscapeFree) : '\x1b' ∉ d.place.toList := by
  have digits : ∀ n : Nat, '\x1b' ∉ Nat.toDigits 10 n := Numeral.not_mem_toDigits rfl
  have label := h.file
  unfold Diagnostic.place
  cases named : d.file with
  | none => simp [digits]
  | some file => simp [digits, label file named]

theorem headSpans (h : d.EscapeFree) : Text.EscapeFree d.headSpans := by
  have label : '\x1b' ∉ d.kind.label.text := by
    cases d.kind <;> decide
  simp [Text.EscapeFree, Diagnostic.headSpans, Span.plain, label, h.message, h.place]

theorem suggestionSpans (h : d.EscapeFree) : Text.EscapeFree d.suggestionSpans := by
  unfold Diagnostic.suggestionSpans
  split
  · exact List.forall_mem_nil _
  · simp [Text.EscapeFree, Span.plain, h.suggestion]

theorem excerptSpans (h : ∀ line ∈ lines, '\x1b' ∉ line) :
    Text.EscapeFree (d.excerptSpans lines) := by
  unfold Diagnostic.excerptSpans
  split
  · next excerpt shown =>
    rw [Text.EscapeFree, Excerpt.spans, List.forall_mem_flatMap]
    intro row member
    rcases Excerpt.row_cases shown member with rfl | ⟨line, inside, number, row⟩
    · exact ExcerptRow.escapeFree_blank _
    · rcases ExcerptRow.mem_ofLine row with rfl | rfl
      · exact ExcerptRow.escapeFree_source (h line inside) _ _
      · exact ExcerptRow.escapeFree_carets _ _ _ _
  · exact List.forall_mem_nil _

theorem spans (h : d.EscapeFree) (h' : ∀ line ∈ lines, '\x1b' ∉ line) :
    Text.EscapeFree (d.spans lines) :=
  (h.headSpans.append (excerptSpans h')).append h.suggestionSpans

end EscapeFree

end Diagnostic

theorem Failure.escape_not_mem_message {file : String} (h : '\x1b' ∉ file.toList) (errors : Nat) :
    '\x1b' ∉ (notCompiled file errors).message.toList := by
  have ending : '\x1b' ∉ (if errors = 1 then "" else "s").toList := by
    split <;> decide
  rw [message_notCompiled]
  simp only [String.toList_append, List.mem_append, not_or]
  exact ⟨⟨⟨⟨⟨by decide, h⟩, by decide⟩, Numeral.not_mem_toString rfl errors⟩, by decide⟩, ending⟩

namespace Sink

structure EscapeFree (sink : Sink) : Prop where
  records : ∀ d ∈ sink.records, d.EscapeFree
  file : ∀ file ∈ sink.file, '\x1b' ∉ file.toList

theorem EscapeFree.closingSpans {sink : Sink} (h : sink.EscapeFree) :
    Text.EscapeFree sink.closingSpans := by
  have label : '\x1b' ∉ (sink.file.getD "input").toList := by
    cases named : sink.file with
    | none => decide
    | some file => exact h.file file named
  have message := Failure.escape_not_mem_message label sink.errorCount
  unfold Sink.closingSpans
  split
  · exact List.forall_mem_nil _
  · simp [Text.EscapeFree, Span.plain, message]

theorem EscapeFree.spans {sink : Sink} (h : sink.EscapeFree) {lines : List (List Char)}
    (h' : ∀ line ∈ lines, '\x1b' ∉ line) : Text.EscapeFree (sink.spans lines) := by
  have separator : Text.EscapeFree [.plain "\n"] := by
    simp [Text.EscapeFree, Span.plain]
  have blocks : ∀ block ∈ sink.records.map (Diagnostic.spans lines), Text.EscapeFree block := by
    rw [List.forall_mem_map]
    exact fun d member => (h.records d member).spans h'
  exact (separator.intercalate blocks).append h.closingSpans

/-- Without their escape sequences, reports with colour are those without it. -/
theorem unstyled_render (source : List Char) (h : ∀ line ∈ Text.lines source, '\x1b' ∉ line) :
    (∀ d : Diagnostic, d.EscapeFree →
      unstyled (d.render (Text.lines source) true).toList =
        (d.render (Text.lines source) false).toList) ∧
    ∀ sink : Sink, sink.EscapeFree →
      unstyled (sink.render (Text.lines source) true).toList =
        (sink.render (Text.lines source) false).toList :=
  ⟨fun _ free => (free.spans h).unstyled_paint, fun _ free => (free.spans h).unstyled_paint⟩

/-- A diagnostic whose texts are escape sequences but for the escape character. -/
def bracketed : Diagnostic :=
  ⟨.semantic, "Undefined variable '[0m'", ⟨1, 5⟩, 9, "[1;31m", some "m.ql"⟩

theorem unstyled_render_bracketed :
    let lines := Text.lines "say [31;1m twice".toList
    let sink : Sink := ⟨none, [bracketed]⟩
    (∀ line ∈ lines, '\x1b' ∉ line) ∧ bracketed.EscapeFree ∧ sink.EscapeFree ∧
      unstyled (bracketed.render lines true).toList = (bracketed.render lines false).toList ∧
      unstyled (sink.render lines true).toList = (sink.render lines false).toList := by
  have source : ∀ line ∈ Text.lines "say [31;1m twice".toList, '\x1b' ∉ line := by decide
  have free : bracketed.EscapeFree := ⟨by decide, by decide, by decide⟩
  have records : Sink.EscapeFree ⟨none, [bracketed]⟩ :=
    ⟨List.forall_mem_singleton.mpr free, by decide⟩
  exact ⟨source, free, records, (unstyled_render _ source).1 _ free,
    (unstyled_render _ source).2 _ records⟩

end Sink

end Quill
