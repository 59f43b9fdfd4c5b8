import Quill.Lexeme.Read

/-!
What tokens show of their source text. String literals are told apart from all other tokens: their
quotes are dropped and their escapes are replaced.
-/
namespace Quill

/-- The inside of a string literal, and the text that it stands for. After a backslash, the letters
`n`, `t` and `r` stand for a line feed, a tab and a carriage return, and any other character stands
for itself. -/
inductive Inside : List Char → List Char → Prop
  | nil : Inside [] []
  | char {c : Char} {text value : List Char} (notQuote : c ≠ '"') (notBackslash : c ≠ '\\')
      (h : Inside text value) : Inside (c :: text) (c :: value)
  | newline {text value : List Char} (h : Inside text value) :
      Inside ('\\' :: 'n' :: text) ('\n' :: value)
  | tab {text value : List Char} (h : Inside text value) :
      Inside ('\\' :: 't' :: text) ('\t' :: value)
  | carriage {text value : List Char} (h : Inside text value) :
      Inside ('\\' :: 'r' :: text) ('\r' :: value)
  | kept {c : Char} {text value : List Char} (other : c ∉ ['n', 't', 'r'])
      (h : Inside text value) : Inside ('\\' :: c :: text) (c :: value)

/-- A string literal with `after` after it in the source, and the text that it stands for. Without a
closing quote it goes on to the end of the source, where a last backslash stands for nothing. -/
inductive LiteralText (after : List Char) : List Char → List Char → Prop
  | closed {inside value : List Char} (h : Inside inside value) :
      LiteralText after ('"' :: (inside ++ ['"'])) value
  | unclosed {inside value : List Char} (last : after = []) (h : Inside inside value) :
      LiteralText after ('"' :: inside) value
  | dangling {inside value : List Char} (last : after = []) (h : Inside inside value) :
      LiteralText after ('"' :: (inside ++ ['\\'])) value

/-- The kind of a token that shows its text as it is. -/
def TokenKind.Verbatim (kind : TokenKind) : Prop := kind ≠ .stringLiteral ∧ kind ≠ .endOfInput

instance : DecidablePred TokenKind.Verbatim := fun _ => inferInstanceAs (Decidable (_ ∧ _))

/-- The kind of a token with a given text and with `after` after it, and what the token shows. -/
inductive Spells (after text : List Char) : TokenKind → List Char → Prop
  | quoted {value : List Char} (h : LiteralText after text value) :
      Spells after text .stringLiteral value
  | plain {kind : TokenKind} (verbatim : kind.Verbatim) : Spells after text kind text

/-- The inside of a literal is made of characters that stand for themselves, and of backslashes with
a character each. -/
@[elab_as_elim]
theorem Inside.of_pieces {motive : List Char → Prop} {inside value : List Char}
    (h : Inside inside value) (empty : motive [])
    (char : ∀ c text, c ≠ '"' → c ≠ '\\' → motive text → motive (c :: text))
    (escape : ∀ c text, motive text → motive ('\\' :: c :: text)) : motive inside := by
  induction h with
  | nil => exact empty
  | char notQuote notBackslash _ ih => exact char _ _ notQuote notBackslash ih
  | newline _ ih => exact escape _ _ ih
  | tab _ ih => exact escape _ _ ih
  | carriage _ ih => exact escape _ _ ih
  | kept _ _ ih => exact escape _ _ ih

namespace QuotedPiece

/-- A character that stands for itself is neither a quote nor a backslash. -/
def Proper : QuotedPiece → Prop
  | char c => c ≠ '"' ∧ c ≠ '\\'
  | escape _ => True

/-- An escape is two characters of the source and one of the value, known or not. -/
theorem inside_escape (c : Char) {text value : List Char} (h : Inside text value) :
    Inside ((escape c).source ++ text) ((escape c).value :: value) := by
  have decoded : (escape c).value = (decodeEscape? c).getD c := rfl
  rw [decoded]
  unfold decodeEscape?
  split
  · exact .newline h
  · exact .tab h
  · exact .carriage h
  · exact .kept (by decide) h
  · exact .kept (by decide) h
  · next notN notT notR _ _ =>
    refine .kept ?_ h
    simp only [List.mem_cons, List.not_mem_nil, or_false, not_or]
    exact ⟨notN, notT, notR⟩

theorem inside {pieces : List QuotedPiece} (proper : ∀ piece ∈ pieces, piece.Proper) :
    Inside (pieces.flatMap source) (pieces.map value) := by
  induction pieces with
  | nil => exact .nil
  | cons piece pieces ih =>
    rw [List.forall_mem_cons] at proper
    have more := ih proper.2
    cases piece with
    | char c => exact .char proper.1.1 proper.1.2 more
    | escape c => exact inside_escape c more

end QuotedPiece

namespace Quoted

/-- A character that is neither at the end nor in front of another as a backslash is none. -/
theorem ne_backslash {c : Char} {rest : List Char} (notLast : c = '\\' → rest = [] → False)
    (notEscape : ∀ d more, c = '\\' → rest = d :: more → False) : c ≠ '\\' := by
  intro backslash
  cases rest with
  | nil => exact notLast backslash rfl
  | cons d more => exact notEscape d more backslash rfl

theorem read_char {c : Char} (notQuote : c ≠ '"') (notBackslash : c ≠ '\\') (rest : List Char) :
    read (c :: rest) = push (.char c) (read rest) := by
  rw [read.eq_def]
  split
  · next whole => cases whole
  · next whole => exact absurd (List.cons.inj whole).1 notBackslash
  · next whole => exact absurd (List.cons.inj whole).1 notBackslash
  · next whole =>
    obtain ⟨rfl, rfl⟩ := List.cons.inj whole
    rw [if_neg notQuote]

/-- A quote would have ended the literal and a backslash takes the next character with it. -/
theorem proper_read (text : List Char) : ∀ piece ∈ (read text).1.pieces, piece.Proper := by
  fun_induction read text with
  | case1 => simp
  | case2 => simp
  | case3 c rest ih => simpa [push, QuotedPiece.Proper] using ih
  | case4 rest _ _ => simp
  | case5 c rest notLast notEscape notQuote ih =>
    have notBackslash := ne_backslash notLast notEscape
    simpa [push, QuotedPiece.Proper, notQuote, notBackslash] using ih

/-- A literal without a closing quote leaves nothing of the source. -/
theorem closed_or_end (text : List Char) : (read text).1.ending = .closed ∨ (read text).2 = [] := by
  fun_induction read text with
  | case1 => exact .inr rfl
  | case2 => exact .inr rfl
  | case3 c rest ih => exact ih
  | case4 rest _ _ => exact .inl rfl
  | case5 c rest _ _ _ ih => exact ih

/-- A literal is read back from its source, if it has its closing quote or nothing follows. -/
theorem read_source {literal : Quoted} {rest : List Char}
    (proper : ∀ piece ∈ literal.pieces, piece.Proper)
    (ends : literal.ending = .closed ∨ rest = []) :
    read (literal.source ++ rest) = (literal, rest) := by
  obtain ⟨pieces, ending⟩ := literal
  induction pieces with
  | nil =>
    cases ending with
    | closed => simp [source, QuotedEnd.source, read]
    | unclosed =>
      obtain rfl : rest = [] := by simpa using ends
      rfl
    | dangling =>
      obtain rfl : rest = [] := by simpa using ends
      rfl
  | cons piece pieces ih =>
    rw [List.forall_mem_cons] at proper
    have more := ih proper.2 ends
    have split : source ⟨piece :: pieces, ending⟩ ++ rest =
        piece.source ++ (source ⟨pieces, ending⟩ ++ rest) := by simp [source]
    rw [split]
    cases piece with
    | char c =>
      rw [QuotedPiece.source, List.singleton_append, read_char proper.1.1 proper.1.2, more]
      rfl
    | escape c =>
      simp only [QuotedPiece.source, List.cons_append, List.nil_append, read, more]
      rfl

/-- What is read is spelled as the rules have it, whether the literal is closed or not. -/
theorem literalText_read (text : List Char) :
    LiteralText (read text).2 ('"' :: (read text).1.source) (read text).1.value := by
  have inside := QuotedPiece.inside (proper_read text)
  have closed := closed_or_end text
  generalize read text = result at inside closed ⊢
  obtain ⟨⟨pieces, ending⟩, after⟩ := result
  cases ending with
  | closed => exact .closed inside
  | unclosed =>
    have last : after = [] := by simpa using closed
    rw [source, QuotedEnd.source, List.append_nil]
    exact .unclosed last inside
  | dangling =>
    have last : after = [] := by simpa using closed
    exact .dangling last inside

end Quoted

namespace TokenKind

variable {word : String} {kind : TokenKind}

theorem mem_reserved (h : ofReserved? word = some kind) : (word, kind) ∈ reserved := by
  obtain ⟨before, after, whole, -⟩ := List.lookup_eq_some_iff.mp h
  simp [whole]

theorem ofReserved?_eq_none_iff : ofReserved? word = none ↔ word ∉ reserved.map (·.1) := by
  rw [ofReserved?, List.lookup_eq_none_iff]
  constructor
  · intro missed member
    obtain ⟨entry, found, rfl⟩ := List.mem_map.mp member
    simpa using missed entry found
  · intro free entry found
    refine bne_iff_ne.mpr fun same => free ?_
    rw [same]
    exact List.mem_map_of_mem found

/-- Words and signs show their text, so no kind of theirs is that of a string literal. -/
theorem verbatim_ofReserved? (h : ofReserved? word = some kind) : kind.Verbatim := by
  have all : ∀ entry ∈ reserved, entry.2.Verbatim := by decide
  exact all _ (mem_reserved h)

end TokenKind

namespace Lexeme

theorem verbatim_punctuation? {c : Char} {kind : TokenKind} (h : punctuation? c = some kind) :
    kind.Verbatim := by
  unfold punctuation? at h
  split at h <;> cases h <;> decide

theorem verbatim_withEquals? {c : Char} {kind : TokenKind} (h : withEquals? c = some kind) :
    kind.Verbatim := by
  unfold withEquals? at h
  split at h <;> cases h <;> decide

/-- The token of a lexeme shows what it should of the lexeme's source text. -/
def Shown (after : List Char) (l : Lexeme) : Prop := Spells after l.source l.kind l.value

theorem shown_plain {after text : List Char} {kind : TokenKind} (verbatim : kind.Verbatim) :
    Shown after (.plain kind text) := .plain verbatim

theorem shown_stray {after : List Char} (c : Char) : Shown after (.stray c) := by
  have verbatim : TokenKind.unknown.Verbatim := by decide
  exact .plain verbatim

theorem shown_number (c : Char) (rest : List Char) : Shown (number c rest).2 (number c rest).1 := by
  unfold number
  split
  · split
    · exact shown_plain (by decide)
    · exact shown_plain (by decide)
  · exact shown_plain (by decide)

/-- A word is reserved or a name, and shows its text in both cases. -/
theorem shown_word (c : Char) (rest : List Char) : Shown (word c rest).2 (word c rest).1 := by
  apply shown_plain
  cases reserved : TokenKind.ofReserved? (String.ofList (c :: rest.takeWhile isNamePart)) with
  | none => decide
  | some kind => exact TokenKind.verbatim_ofReserved? reserved

theorem shown_blockComment (rest : List Char) :
    Shown (blockComment rest).2 (blockComment rest).1 := by
  unfold blockComment
  split
  · exact shown_plain (by decide)
  · exact shown_plain (by decide)

/-- By the first character, in the order in which the scanner decides. -/
theorem shown_read (c : Char) (rest : List Char) : Shown (read c rest).2 (read c rest).1 := by
  unfold read
  split
  · exact .quoted (Quoted.literalText_read rest)
  split
  · exact shown_plain (by decide)
  split
  · split
    · exact shown_plain (by decide)
    · exact shown_blockComment rest
  split
  · exact shown_number c rest
  split
  · exact shown_word c rest
  split
  · exact shown_plain (verbatim_withEquals? ‹_›)
  · split
    · next punctuation => exact shown_plain (verbatim_punctuation? punctuation)
    · exact shown_stray c

/-- A lexeme's source text starts with the character that it is read from. -/
theorem exists_source_read (c : Char) (rest : List Char) :
    ∃ more, (read c rest).1.source = c :: more := by
  have whole := source_read c rest
  have shorter := length_read_le c rest
  cases text : (read c rest).1.source with
  | nil =>
    rw [text, List.nil_append] at whole
    rw [whole] at shorter
    exact absurd shorter (Nat.not_succ_le_self _)
  | cons first more =>
    rw [text, List.cons_append, List.cons.injEq] at whole
    exact ⟨more, by rw [whole.1]⟩

end Lexeme

end Quill
