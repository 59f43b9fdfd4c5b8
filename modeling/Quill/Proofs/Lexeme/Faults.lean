import Quill.Proofs.Lexeme.Munch

/-!
The errors of a scan, read off the text of its tokens. A character that no token starts with is one
error, and so is each backslash in a string literal with a character after it that it does not
escape; a string literal without its closing quote has one more, and is the last token.
-/
namespace Quill

/-- The errors of the inside of a string literal that stands behind `before`. -/
inductive Escapes : (before inside : List Char) → List LexicalError → Prop
  | nil {before : List Char} : Escapes before [] []
  | char {before inside : List Char} {c : Char} {errors : List LexicalError} (notQuote : c ≠ '"')
      (notBackslash : c ≠ '\\') (h : Escapes (before ++ [c]) inside errors) :
      Escapes before (c :: inside) errors
  | known {before inside : List Char} {c : Char} {errors : List LexicalError}
      (known : c ∈ ['n', 't', 'r', '\\', '"']) (h : Escapes (before ++ ['\\', c]) inside errors) :
      Escapes before ('\\' :: c :: inside) errors
  | invalid {before inside : List Char} {c : Char} {errors : List LexicalError}
      (unknown : c ∉ ['n', 't', 'r', '\\', '"'])
      (h : Escapes (before ++ ['\\', c]) inside errors) :
      Escapes before ('\\' :: c :: inside) (⟨.invalidEscape c, .past before⟩ :: errors)

/-- The errors of a string literal, between two texts. Only the end of the source can stand in for
the closing quote, also just after a backslash. -/
inductive LiteralFaults (before after : List Char) : List Char → List LexicalError → Prop
  | closed {inside : List Char} {errors : List LexicalError}
      (h : Escapes (before ++ ['"']) inside errors) :
      LiteralFaults before after ('"' :: (inside ++ ['"'])) errors
  | unclosed {inside : List Char} {errors : List LexicalError} (last : after = [])
      (h : Escapes (before ++ ['"']) inside errors) :
      LiteralFaults before after ('"' :: inside) (errors ++ [⟨.unterminated, .past before⟩])
  | dangling {inside : List Char} {errors : List LexicalError} (last : after = [])
      (h : Escapes (before ++ ['"']) inside errors) :
      LiteralFaults before after ('"' :: (inside ++ ['\\']))
        (errors ++ [⟨.unterminated, .past before⟩])

/-- The errors of a token, between two texts. -/
inductive Faults (before after : List Char) : List Char → TokenKind → List LexicalError → Prop
  | stray {c : Char} : Faults before after [c] .unknown [⟨.unexpected c, .past before⟩]
  | literal {text : List Char} {errors : List LexicalError}
      (h : LiteralFaults before after text errors) :
      Faults before after text .stringLiteral errors
  | none {text : List Char} {kind : TokenKind} (known : kind ≠ .unknown)
      (verbatim : kind ≠ .stringLiteral) : Faults before after text kind []

/-- A token of its own text, between two other texts, and just the errors that the text has. -/
structure Token.Reports (before text after : List Char) (entry : Token × List LexicalError) :
    Prop where
  stands : entry.1.Stands before text after
  errors_iff : ∀ errors, Faults before after text entry.1.kind errors ↔ errors = entry.2

theorem decodeEscape?_eq_none_iff {c : Char} :
    decodeEscape? c = none ↔ c ∉ ['n', 't', 'r', '\\', '"'] := by
  constructor
  · intro unknown member
    have all : ∀ c ∈ ['n', 't', 'r', '\\', '"'], (decodeEscape? c).isSome = true := by decide
    have known := all c member
    rw [unknown] at known
    cases known
  · intro other
    refine Option.eq_none_iff_forall_ne_some.mpr fun d known => other ?_
    unfold decodeEscape? at known
    split at known <;> cases known <;> decide

namespace Escapes

variable {before inside : List Char} {errors : List LexicalError}

/-- The inside of a literal has its errors in its pieces. -/
theorem exists_pieces (h : Escapes before inside errors) :
    ∃ pieces : List QuotedPiece, (∀ piece ∈ pieces, piece.Proper) ∧
      pieces.flatMap QuotedPiece.source = inside ∧
      Quoted.escapeErrors (.past before) pieces = errors := by
  induction h with
  | nil => exact ⟨[], by simp, rfl, rfl⟩
  | @char before _ c _ notQuote notBackslash _ ih =>
    obtain ⟨pieces, proper, rfl, rfl⟩ := ih
    refine ⟨.char c :: pieces, List.forall_mem_cons.mpr ⟨⟨notQuote, notBackslash⟩, proper⟩, rfl, ?_⟩
    rw [Quoted.escapeErrors, Location.past_concat]
  | @known before _ c _ known _ ih =>
    obtain ⟨pieces, proper, rfl, rfl⟩ := ih
    have escapes : ¬ decodeEscape? c = none := fun noEscape =>
      decodeEscape?_eq_none_iff.mp noEscape known
    refine ⟨.escape c :: pieces, List.forall_mem_cons.mpr ⟨trivial, proper⟩, rfl, ?_⟩
    rw [Quoted.escapeErrors, Location.after_past, if_neg (by simpa using escapes), List.nil_append]
  | @invalid before _ c _ unknown _ ih =>
    obtain ⟨pieces, proper, rfl, rfl⟩ := ih
    have noEscape := decodeEscape?_eq_none_iff.mpr unknown
    refine ⟨.escape c :: pieces, List.forall_mem_cons.mpr ⟨trivial, proper⟩, rfl, ?_⟩
    rw [Quoted.escapeErrors, Location.after_past, noEscape]
    rfl

theorem cause_ne (h : Escapes before inside errors) :
    ∀ error ∈ errors, error.cause ≠ .unterminated := by
  induction h with
  | nil => simp
  | char _ _ _ ih => exact ih
  | known _ _ ih => exact ih
  | invalid _ _ ih => exact List.forall_mem_cons.mpr ⟨nofun, ih⟩

end Escapes

/-- The inside of any literal has errors, if only none. -/
theorem Inside.exists_escapes {inside value : List Char} (h : Inside inside value) :
    ∀ before, ∃ errors, Escapes before inside errors := by
  refine h.of_pieces (fun _ => ⟨_, .nil⟩) ?char ?escape
  case char =>
    intro c text notQuote notBackslash more before
    obtain ⟨errors, h⟩ := more (before ++ [c])
    exact ⟨_, .char notQuote notBackslash h⟩
  case escape =>
    intro c text more before
    obtain ⟨errors, h⟩ := more (before ++ ['\\', c])
    by_cases known : c ∈ ['n', 't', 'r', '\\', '"']
    · exact ⟨_, .known known h⟩
    · exact ⟨_, .invalid known h⟩

theorem LiteralText.exists_faults {after text value : List Char} (h : LiteralText after text value)
    (before : List Char) : ∃ errors, LiteralFaults before after text errors := by
  cases h with
  | closed inside =>
    obtain ⟨errors, escapes⟩ := inside.exists_escapes (before ++ ['"'])
    exact ⟨_, .closed escapes⟩
  | unclosed last inside =>
    obtain ⟨errors, escapes⟩ := inside.exists_escapes (before ++ ['"'])
    exact ⟨_, .unclosed last escapes⟩
  | dangling last inside =>
    obtain ⟨errors, escapes⟩ := inside.exists_escapes (before ++ ['"'])
    exact ⟨_, .dangling last escapes⟩

namespace LiteralFaults

variable {before after text : List Char} {errors : List LexicalError}

/-- A literal is read with its errors. -/
theorem exists_readOff (h : LiteralFaults before after text errors) :
    ∃ literal : Quoted, Lexeme.ReadOff text after (.quoted literal) ∧
      literal.errors (.past before) = errors := by
  cases h with
  | closed escapes =>
    obtain ⟨pieces, proper, rfl, rfl⟩ := escapes.exists_pieces
    refine ⟨_, Quoted.readOff proper .closed (.inl rfl), ?_⟩
    simp [Quoted.errors, Location.past_concat]
  | unclosed last escapes =>
    obtain ⟨pieces, proper, rfl, rfl⟩ := escapes.exists_pieces
    have read := Quoted.readOff proper .unclosed (.inr last)
    rw [QuotedEnd.source, List.append_nil] at read
    refine ⟨_, read, ?_⟩
    simp [Quoted.errors, Location.past_concat]
  | dangling last escapes =>
    obtain ⟨pieces, proper, rfl, rfl⟩ := escapes.exists_pieces
    refine ⟨_, Quoted.readOff proper .dangling (.inr last), ?_⟩
    simp [Quoted.errors, Location.past_concat]

/-- A literal without its closing quote ends with the source. -/
theorem last_of_unterminated (h : LiteralFaults before after text errors)
    (unterminated : ∃ error ∈ errors, error.cause = .unterminated) : after = [] := by
  cases h with
  | closed escapes =>
    obtain ⟨error, member, cause⟩ := unterminated
    exact absurd cause (escapes.cause_ne error member)
  | unclosed last _ => exact last
  | dangling last _ => exact last

end LiteralFaults

/-- A text that a token shows as it is spells neither a string literal nor an unknown token. -/
theorem WellSpelled.known {kind : TokenKind} {text : List Char} (h : WellSpelled kind text) :
    kind ≠ .unknown ∧ kind ≠ .stringLiteral := by
  have reserved : ∀ entry ∈ TokenKind.reserved,
      entry.2 ≠ .unknown ∧ entry.2 ≠ .stringLiteral := by decide
  have signs : ∀ entry ∈ TokenKind.signs ++ TokenKind.doubleSigns,
      entry.2 ≠ .unknown ∧ entry.2 ≠ .stringLiteral := by decide
  cases h with
  | reserved h => exact reserved _ h
  | sign h => exact signs _ (List.mem_append_left _ h)
  | doubleSign h => exact signs _ (List.mem_append_right _ h)
  | name | integer | decimal | lineComment | blockComment => decide

theorem Munch.exists_faults {after text : List Char} {kind : TokenKind}
    (h : Munch after text kind) (before : List Char) :
    ∃ errors, Faults before after text kind errors := by
  obtain ⟨whole, -⟩ := h
  cases whole with
  | spelled spelled => exact ⟨_, .none spelled.known.1 spelled.known.2⟩
  | string literal =>
    obtain ⟨errors, faults⟩ := literal.exists_faults before
    exact ⟨_, .literal faults⟩
  | openComment => exact ⟨_, .none (by decide) (by decide)⟩
  | stray => exact ⟨_, .stray⟩

/-- The errors of a token's text are those of the lexeme that is read off it. -/
theorem Faults.eq_errors {before after text : List Char} {errors : List LexicalError} {l : Lexeme}
    (h : Faults before after text l.kind errors) (read : Lexeme.ReadOff text after l) :
    errors = l.errors (.past before) := by
  generalize same : l.kind = kind at h
  cases h with
  | @stray c =>
    have munch := read.munch
    rw [same] at munch
    obtain ⟨whole, -⟩ := munch
    cases whole with
    | spelled spelled => exact absurd rfl spelled.known.1
    | stray stray =>
      obtain ⟨-, -, rfl⟩ := stray.readOff.unique read rfl
      rfl
  | literal faults =>
    obtain ⟨literal, again, rfl⟩ := faults.exists_readOff
    obtain ⟨-, -, rfl⟩ := again.unique read rfl
    rfl
  | none known verbatim =>
    cases l with
    | plain => rfl
    | quoted => exact absurd same.symm verbatim
    | stray => exact absurd same.symm known

theorem Faults.last_of_unterminated {before after text : List Char} {kind : TokenKind}
    {errors : List LexicalError} (h : Faults before after text kind errors)
    (unterminated : ∃ error ∈ errors, error.cause = .unterminated) : after = [] := by
  cases h with
  | stray => simp at unterminated
  | literal faults => exact faults.last_of_unterminated unterminated
  | none => simp at unterminated

/-- What is read off a source is reported as it should be. -/
theorem Lexeme.ReadOff.reports {text after : List Char} {l : Lexeme} (h : ReadOff text after l)
    (before : List Char) :
    Token.Reports before text after (l.token (.past before), l.errors (.past before)) := by
  refine ⟨h.token_stands before, fun errors => ⟨fun faults => faults.eq_errors h, ?_⟩⟩
  rintro rfl
  obtain ⟨errors, faults⟩ := h.munch.exists_faults before
  rwa [faults.eq_errors h] at faults

/-- The errors of a scan are those of the texts of its tokens, in order, and no others. A string
literal without its closing quote is the last token in front of the end mark. -/
theorem Sink.scan_reports (sink : Sink) (source : String) :
    ∃ cells last entries mark,
      source.toList = cells.flatMap Cell.source ++ last ∧ Blank last ∧
      Along Token.Reports last [] cells entries ∧
      (sink.scan source).1 = entries.map (·.1) ++ [mark] ∧ mark.kind = .endOfInput ∧
      (sink.scan source).2.records = sink.records ++
        ((entries.flatMap (·.2)).map LexicalError.diagnostic).map sink.stamp ∧
      ∀ front entry back, entries = front ++ entry :: back →
        (∃ error ∈ entry.2, error.cause = .unterminated) → back = [] := by
  obtain ⟨cells, last, whole, final, along⟩ := Tile.cut_along [] source.toList
  rw [Location.past_nil] at along
  have reports : Along Token.Reports last [] cells _ :=
    along.map (f := fun entry => (entry.1.token entry.2, entry.1.errors entry.2))
      fun before text after entry read => read.2 ▸ read.1.reports before
  refine ⟨cells, last, _, .endMark (.past source.toList), whole, final, reports, ?_, rfl, ?_, ?_⟩
  · rw [List.map_map]
    exact Scan.tokens_ofSource source
  · rw [List.flatMap_map]
    rw [scan, Scan.errors_ofSource]
    rfl
  · intro front entry back split unterminated
    rw [split] at reports
    obtain ⟨ahead, text, behind, -, report, more⟩ := reports.exists_split
    have faults := (report.errors_iff entry.2).mpr rfl
    obtain ⟨nothing, -⟩ := List.append_eq_nil_iff.mp (faults.last_of_unterminated unterminated)
    cases more with
    | nil => rfl
    | cons _ next _ =>
      rw [List.flatMap_cons, Cell.source] at nothing
      exact absurd nothing (by simp [next.stands.nonempty])

end Quill
