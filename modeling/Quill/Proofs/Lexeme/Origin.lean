import Quill.Proofs.Lexeme.Tiling

/-!
Where the findings of a scan come from. Each token but the end mark starts with a character of the
source that is no blank, and each error is that of a token, or of a backslash in a string literal.
-/
namespace Quill

/-- A token whose text stands behind `before` in a source, and starts with `c` there. -/
structure Token.StartsAt (source before : List Char) (c : Char) (t : Token) : Prop where
  exists_text : ∃ more after, source = before ++ (c :: more ++ after) ∧
    t.Stands before (c :: more) after
  notBlank : c ∉ [' ', '\t', '\r', '\n']

/-- A backslash behind `before` in a source, within a string literal, with a character after it that
it does not escape. The literal's text in front of it is complete. -/
structure EscapeAt (source : List Char) (tokens : List Token) (before : List Char) (c : Char) :
    Prop where
  exists_literal : ∃ front inside value more after t,
    before = front ++ '"' :: inside ∧ Inside inside value ∧
      source = front ++ ('"' :: (inside ++ '\\' :: c :: more) ++ after) ∧
      t ∈ tokens ∧ t.kind = .stringLiteral ∧
      t.Stands front ('"' :: (inside ++ '\\' :: c :: more)) after
  unknown : decodeEscape? c = none

/-- The token of the lexeme that is read off a source behind `before`. -/
theorem Lexeme.token_startsAt (before : List Char) (c : Char) (rest : List Char)
    (notBlank : isBlank c = false) :
    ((read c rest).1.token (.past before)).StartsAt (before ++ c :: rest) before c := by
  have stands := token_stands before c rest notBlank
  have whole := source_read c rest
  obtain ⟨more, text⟩ := exists_source_read c rest
  rw [text] at stands whole
  exact ⟨⟨more, _, by rw [whole], stands⟩, isBlank_eq_false_iff.mp notBlank⟩

namespace Tile

/-- The lexemes of a source are read off it at their places. -/
theorem exists_read_of_mem (before text : List Char) :
    ∀ entry ∈ placed (.past before) (cut text), ∃ front c rest,
      text = front ++ c :: rest ∧ Lexeme.isBlank c = false ∧
      entry = ((Lexeme.read c rest).1, .past (before ++ front)) := by
  obtain ⟨cells, last, rfl, -, along⟩ := cut_along before text
  intro entry member
  obtain ⟨front, back, placed⟩ := List.append_of_mem member
  rw [placed] at along
  obtain ⟨ahead, own, behind, whole, read, -⟩ := along.exists_split
  obtain ⟨⟨c, tail, rfl, notBlank, read⟩, place⟩ := read
  refine ⟨ahead, c, tail ++ (behind.flatMap Cell.source ++ last), ?_, notBlank, ?_⟩
  · rw [whole, List.append_assoc, List.cons_append]
  · rw [read, ← place]

end Tile

/-- The invalid escapes of a string literal, with the pieces in front of each. -/
theorem Quoted.exists_of_mem_escapeErrors (before : List Char) (pieces : List QuotedPiece) :
    ∀ error ∈ escapeErrors (.past before) pieces, ∃ front c back,
      pieces = front ++ .escape c :: back ∧ decodeEscape? c = none ∧
      error = ⟨.invalidEscape c, .past (before ++ front.flatMap QuotedPiece.source)⟩ := by
  induction pieces generalizing before with
  | nil => simp [escapeErrors]
  | cons piece pieces ih =>
    intro error member
    have onward : ∀ text : List Char, text = piece.source →
        error ∈ escapeErrors (.past (before ++ text)) pieces → ∃ front c back,
          piece :: pieces = front ++ .escape c :: back ∧ decodeEscape? c = none ∧
          error = ⟨.invalidEscape c, .past (before ++ front.flatMap QuotedPiece.source)⟩ := by
      intro text same later
      obtain ⟨front, c, back, rfl, unknown, place⟩ := ih _ error later
      exact ⟨piece :: front, c, back, rfl, unknown, by simpa [same] using place⟩
    cases piece with
    | char c =>
      rw [escapeErrors, ← Location.past_concat] at member
      exact onward [c] rfl member
    | escape c =>
      rw [escapeErrors, Location.after_past] at member
      rcases List.mem_append.mp member with here | later
      · refine ⟨[], c, pieces, rfl, ?_, ?_⟩
        · by_contra known
          simp [known] at here
        · split at here
          · simpa using here
          · cases here
      · exact onward ['\\', c] rfl later

/-- A lexeme that is no string literal is read as it stands, or is a character that no token starts
with. -/
theorem Lexeme.read_of_ne_quote {c : Char} (h : c ≠ '"') (rest : List Char) :
    (∃ kind text, (read c rest).1 = .plain kind text) ∨ (read c rest).1 = .stray c := by
  have number : ∃ kind text, (number c rest).1 = .plain kind text := by
    unfold number
    split
    · split <;> exact ⟨_, _, rfl⟩
    · exact ⟨_, _, rfl⟩
  have comment : ∃ kind text, (blockComment rest).1 = .plain kind text := by
    unfold blockComment
    split <;> exact ⟨_, _, rfl⟩
  unfold read
  rw [if_neg h]
  split
  · exact .inl ⟨_, _, rfl⟩
  split
  · split
    · exact .inl ⟨_, _, rfl⟩
    · exact .inl comment
  split
  · exact .inl number
  split
  · exact .inl ⟨_, _, rfl⟩
  split
  · exact .inl ⟨_, _, rfl⟩
  · split
    · exact .inl ⟨_, _, rfl⟩
    · exact .inr rfl

/-- The token that an error of spelling blames as a whole. -/
inductive LexicalError.Blames : LexicalError → Token → Prop
  | stray {c : Char} {place : Location} {t : Token} (kind : t.kind = .unknown)
      (lexeme : t.lexeme = String.ofList [c]) (stands : t.location = place) :
      Blames ⟨.unexpected c, place⟩ t
  | unterminated {place : Location} {t : Token} (kind : t.kind = .stringLiteral)
      (stands : t.location = place) : Blames ⟨.unterminated, place⟩ t

namespace Scan

variable {source : String}

theorem exists_startsAt : ∀ t ∈ (ofSource source).tokens,
    (∃ before c, t.StartsAt source.toList before c) ∨ t = .endMark (.past source.toList) := by
  intro t member
  rw [tokens_ofSource, List.mem_append, List.mem_singleton] at member
  refine member.imp_left fun found => ?_
  obtain ⟨entry, placed, rfl⟩ := List.mem_map.mp found
  obtain ⟨before, c, rest, whole, notBlank, rfl⟩ := Tile.exists_read_of_mem [] _ entry placed
  rw [whole]
  exact ⟨before, c, Lexeme.token_startsAt before c rest notBlank⟩

/-- Each error of a string literal blames the literal, or a backslash in it. -/
theorem blamed_of_literal {tokens : List Token} {before rest : List Char}
    (whole : source.toList = before ++ '"' :: rest)
    (token : (Lexeme.read '"' rest).1.token (.past before) ∈ tokens) :
    ∀ error ∈ (Lexeme.read '"' rest).1.errors (.past before),
      (∃ t ∈ tokens, error.Blames t) ∨
      ∃ before c, EscapeAt source.toList tokens before c ∧
        error = ⟨.invalidEscape c, .past before⟩ := by
  intro error found
  have stands := Lexeme.token_stands before '"' rest (by decide)
  have literal : (Lexeme.read '"' rest).1 = .quoted (Quoted.read rest).1 := rfl
  have proper := Quoted.proper_read rest
  have text := Lexeme.source_read '"' rest
  rw [literal] at found token stands text
  rcases List.mem_append.mp found with escape | unclosed
  · rw [← Location.past_concat] at escape
    obtain ⟨front, c, back, pieces, unknown, rfl⟩ :=
      Quoted.exists_of_mem_escapeErrors _ _ error escape
    let inside := front.flatMap QuotedPiece.source
    have split : (Lexeme.quoted (Quoted.read rest).1).source = '"' :: (inside ++ '\\' :: c ::
        (back.flatMap QuotedPiece.source ++ (Quoted.read rest).1.ending.source)) := by
      simp [Lexeme.source, Quoted.source, pieces, QuotedPiece.source, inside]
    have complete : Inside inside (front.map QuotedPiece.value) :=
      QuotedPiece.inside fun piece member => proper piece (by simp [pieces, member])
    rw [split] at stands text
    refine .inr ⟨before ++ '"' :: inside, c,
      ⟨⟨before, inside, _, _, _, _, rfl, complete, ?_, token, rfl, stands⟩, unknown⟩, ?_⟩
    · rw [whole, ← text]
    · simp [inside]
  · split at unclosed
    · cases unclosed
    · obtain rfl := List.mem_singleton.mp unclosed
      exact .inl ⟨_, token, .unterminated rfl rfl⟩

/-- Each error of a scan blames a token, or a backslash in a string literal. -/
theorem exists_blamed : ∀ error ∈ (ofSource source).errors,
    (∃ t ∈ (ofSource source).tokens, error.Blames t) ∨
    ∃ before c, EscapeAt source.toList (ofSource source).tokens before c ∧
      error = ⟨.invalidEscape c, .past before⟩ := by
  intro error member
  rw [ofSource, Tile.errors_eq_flatMap] at member
  obtain ⟨entry, placed, found⟩ := List.mem_flatMap.mp member
  have token : entry.1.token entry.2 ∈ (ofSource source).tokens := by
    rw [tokens_ofSource]
    exact List.mem_append_left _ (List.mem_map_of_mem placed)
  obtain ⟨before, c, rest, whole, -, rfl⟩ := Tile.exists_read_of_mem [] _ entry placed
  rw [List.nil_append] at found token
  by_cases quote : c = '"'
  · subst quote
    exact blamed_of_literal whole token error found
  · rcases Lexeme.read_of_ne_quote quote rest with ⟨kind, text, plain⟩ | stray
    · rw [plain] at found
      cases found
    · rw [stray] at found token
      obtain rfl := List.mem_singleton.mp found
      exact .inl ⟨_, token, .stray rfl rfl rfl⟩

end Scan

end Quill
