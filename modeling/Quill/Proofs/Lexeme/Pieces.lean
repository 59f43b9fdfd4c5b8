import Quill.Proofs.Lexeme.Origin
import Quill.Proofs.Lexeme.Writing

/-!
The scan of a source in pieces. No lexeme goes on behind a line feed but a string literal and a
comment between semicolons. So the scan of two texts with a line feed between them is the scan of
the first one, unless that ends within such a lexeme, and the scan of the second one further down.
-/
namespace Quill

/-- A lexeme that only the end of the source ends: a string literal without its closing quote, or a
comment that one semicolon opens and none closes. -/
def Lexeme.Unclosed : Lexeme → Prop
  | plain kind text => kind = .comment ∧ text.head? = some ';' ∧ ';' ∉ text.tail
  | quoted literal => literal.ending ≠ .closed
  | stray _ => False

/-- Where a text stops within a list, it stops when more is put behind the list. -/
theorem span_append {p : Char → Bool} {text : List Char} (more : List Char)
    (stop : text.dropWhile p = [] → ∀ c ∈ more.head?, p c = false) :
    (text ++ more).takeWhile p = text.takeWhile p ∧
      (text ++ more).dropWhile p = text.dropWhile p ++ more := by
  have inside : ∀ c ∈ text.takeWhile p, p c = true := fun c => List.mem_takeWhile_imp
  have stops : ∀ c ∈ (text.dropWhile p ++ more).head?, p c = false := by
    have first := dropWhile_stop p text
    cases behind : text.dropWhile p with
    | nil => exact stop behind
    | cons d rest =>
      rw [behind] at first
      exact first
  have split := span_of_stop inside stops
  rwa [← List.append_assoc, List.takeWhile_append_dropWhile] at split

/-- A class without the line feed in it stops at the end of a line. -/
theorem span_append_feed {p : Char → Bool} (stop : p '\n' = false) (text more : List Char) :
    (text ++ '\n' :: more).takeWhile p = text.takeWhile p ∧
      (text ++ '\n' :: more).dropWhile p = text.dropWhile p ++ '\n' :: more := by
  refine span_append _ fun _ c member => ?_
  cases member
  exact stop

theorem head?_append_feed {c : Char} (other : c ≠ '\n') (text more : List Char) :
    (text ++ '\n' :: more).head? = some c ↔ text.head? = some c := by
  cases text with
  | nil => simp [Ne.symm other]
  | cons => simp

/-- A literal with its closing quote ends there, whatever follows. -/
theorem Quoted.read_append {text : List Char} (closed : (read text).1.ending = .closed)
    (more : List Char) : read (text ++ more) = ((read text).1, (read text).2 ++ more) := by
  have again : read ((read text).1.source ++ ((read text).2 ++ more)) =
      ((read text).1, (read text).2 ++ more) := read_source (proper_read text) (.inl closed)
  rwa [← List.append_assoc, source_read] at again

namespace Lexeme

variable {c : Char} {rest : List Char}

theorem lineComment_append_feed (more : List Char) :
    lineComment c (rest ++ '\n' :: more) =
      ((lineComment c rest).1, (lineComment c rest).2 ++ '\n' :: more) := by
  obtain ⟨front, back⟩ := span_append_feed (p := (· ≠ '\n')) (by decide) rest more
  rw [lineComment, lineComment, run, run, front, back]

theorem word_append_feed (more : List Char) :
    word c (rest ++ '\n' :: more) = ((word c rest).1, (word c rest).2 ++ '\n' :: more) := by
  obtain ⟨front, back⟩ := span_append_feed (by decide : isNamePart '\n' = false) rest more
  rw [word, word, front, back]

/-- A point at the end of a line is left alone, as it is at the end of the source. -/
theorem number_append_feed (more : List Char) :
    number c (rest ++ '\n' :: more) = ((number c rest).1, (number c rest).2 ++ '\n' :: more) := by
  have stop : Char.isDigit '\n' = false := by decide
  obtain ⟨front, back⟩ := span_append_feed stop rest more
  rw [number, number, front, back]
  cases rest.dropWhile Char.isDigit with
  | nil => rfl
  | cons point behind =>
    by_cases isPoint : point = '.'
    · subst isPoint
      cases behind with
      | nil => rfl
      | cons d after =>
        obtain ⟨frontPart, backPart⟩ := span_append_feed stop after more
        simp only [List.cons_append, frontPart, backPart]
        split <;> rfl
    · simp [isPoint]

theorem blockComment_append (closed : ¬ (blockComment rest).1.Unclosed) (more : List Char) :
    blockComment (rest ++ more) = ((blockComment rest).1, (blockComment rest).2 ++ more) := by
  have inside := not_mem_takeWhile ';' rest
  cases tail : rest.dropWhile (· ≠ ';') with
  | nil =>
    refine absurd ?_ closed
    simp only [blockComment, tail]
    exact ⟨rfl, rfl, inside⟩
  | cons close after =>
    obtain ⟨front, back⟩ := span_append (p := (· ≠ ';')) more
      fun empty => absurd (tail.symm.trans empty) (List.cons_ne_nil _ _)
    simp only [blockComment, front, back, tail, List.cons_append]

theorem read_append_feed (closed : ¬ (read c rest).1.Unclosed) (more : List Char) :
    read c (rest ++ '\n' :: more) = ((read c rest).1, (read c rest).2 ++ '\n' :: more) := by
  have slash := head?_append_feed (by decide : '/' ≠ '\n') rest more
  have semicolon := head?_append_feed (by decide : ';' ≠ '\n') rest more
  unfold read at closed ⊢
  simp only [slash, semicolon]
  split
  · next quote =>
    rw [if_pos quote] at closed
    rw [Quoted.read_append (Decidable.not_not.mp closed)]
  next noQuote =>
  rw [if_neg noQuote] at closed
  split
  · exact lineComment_append_feed more
  next noLine =>
  rw [if_neg noLine] at closed
  split
  · next mark =>
    rw [if_pos mark] at closed
    split
    · exact lineComment_append_feed more
    · next single =>
      rw [if_neg single] at closed
      exact blockComment_append closed _
  split
  · exact number_append_feed more
  split
  · exact word_append_feed more
  · cases rest with
    | nil =>
      cases withEquals? c <;> cases punctuation? c <;> rfl
    | cons d after =>
      by_cases equals : d = '='
      · subst equals
        cases withEquals? c <;> cases punctuation? c <;> rfl
      · cases withEquals? c <;> cases punctuation? c <;> simp [equals]

end Lexeme

/-- A text that ends within no lexeme is cut in front of a line feed as it is alone. -/
theorem Tile.cut_append_feed {text : List Char} (closed : ∀ l, lexeme l ∈ cut text → ¬ l.Unclosed)
    (more : List Char) : cut (text ++ '\n' :: more) = cut text ++ blank '\n' :: cut more := by
  fun_induction cut text with
  | case1 => rw [List.nil_append, cut, if_pos (by decide), List.nil_append]
  | case2 c rest isBlank ih =>
    rw [List.cons_append, cut, if_pos isBlank, ih fun l member => closed l (by simp [member])]
    rfl
  | case3 c rest notBlank ih =>
    have onward := Lexeme.read_append_feed (closed _ List.mem_cons_self) more
    rw [List.cons_append, cut, if_neg notBlank, onward,
      ih fun l member => closed l (List.mem_cons_of_mem _ member)]
    rfl

def Token.down (lines : Nat) (t : Token) : Token := { t with location := t.location.down lines }

def LexicalError.down (lines : Nat) (error : LexicalError) : LexicalError :=
  ⟨error.cause, error.location.down lines⟩

def Diagnostic.down (lines : Nat) (d : Diagnostic) : Diagnostic :=
  { d with location := d.location.down lines }

theorem Quoted.escapeErrors_down (lines : Nat) (here : Location) (pieces : List QuotedPiece) :
    escapeErrors (here.down lines) pieces =
      (escapeErrors here pieces).map (LexicalError.down lines) := by
  induction pieces generalizing here with
  | nil => rfl
  | cons piece pieces ih =>
    cases piece with
    | char c => rw [escapeErrors, escapeErrors, Location.step_down, ih]
    | escape c =>
      rw [escapeErrors, escapeErrors, Location.after_down, ih, List.map_append]
      split <;> rfl

theorem Lexeme.errors_down (lines : Nat) (here : Location) (l : Lexeme) :
    l.errors (here.down lines) = (l.errors here).map (LexicalError.down lines) := by
  cases l with
  | plain => rfl
  | stray => rfl
  | quoted literal =>
    simp only [errors, Quoted.errors, Location.step_down, Quoted.escapeErrors_down,
      List.map_append]
    split <;> rfl

namespace Tile

theorem placed_append (here : Location) (tiles others : List Tile) :
    placed here (tiles ++ others) =
      placed here tiles ++ placed (here.after (tiles.flatMap source)) others := by
  induction tiles generalizing here with
  | nil => rfl
  | cons tile tiles ih =>
    rw [List.flatMap_cons, Location.after_append]
    cases tile with
    | blank c => exact ih (here.step c)
    | lexeme l => exact congrArg ((l, here) :: ·) (ih (here.after l.source))

theorem placed_down (lines : Nat) (here : Location) (tiles : List Tile) :
    placed (here.down lines) tiles =
      (placed here tiles).map fun entry => (entry.1, entry.2.down lines) := by
  induction tiles generalizing here with
  | nil => rfl
  | cons tile tiles ih =>
    cases tile with
    | blank c => rw [placed, placed, Location.step_down, ih]
    | lexeme l => rw [placed, placed, Location.after_down, ih, List.map_cons]

theorem exists_placed {l : Lexeme} {tiles : List Tile} (member : lexeme l ∈ tiles)
    (here : Location) : ∃ place, (l, place) ∈ placed here tiles := by
  induction tiles generalizing here with
  | nil => cases member
  | cons tile tiles ih =>
    cases tile with
    | blank c =>
      obtain ⟨place, found⟩ := ih (by simpa using member) (here.step c)
      exact ⟨place, found⟩
    | lexeme first =>
      rcases List.mem_cons.mp member with same | member
      · cases same
        exact ⟨here, List.mem_cons_self⟩
      · obtain ⟨place, found⟩ := ih member (here.after first.source)
        exact ⟨place, List.mem_cons_of_mem _ found⟩

end Tile

namespace Scan

/-- The source ends within a string literal, whose closing quote is missed, or within a comment that
one semicolon opens and none closes. -/
def EndsInside (scan : Scan) : Prop :=
  (∃ error ∈ scan.errors, error.cause = .unterminated) ∨
    ∃ t ∈ scan.tokens, t.kind = .comment ∧
      t.lexeme.toList.head? = some ';' ∧ ';' ∉ t.lexeme.toList.tail

instance (scan : Scan) : Decidable scan.EndsInside := inferInstanceAs (Decidable (_ ∨ _))

/-- A source ends within any lexeme of it that only the end of the source ends. -/
theorem endsInside_of_unclosed {source : String} {l : Lexeme}
    (member : .lexeme l ∈ Tile.cut source.toList) (unclosed : l.Unclosed) :
    (ofSource source).EndsInside := by
  obtain ⟨place, placed⟩ := Tile.exists_placed member .start
  cases l with
  | plain kind text =>
    obtain ⟨comment, opening, noClose⟩ := unclosed
    refine .inr ⟨(Lexeme.plain kind text).token place, ?_, comment, ?_⟩
    · rw [tokens_ofSource]
      exact List.mem_append_left _ (List.mem_map_of_mem placed)
    · simpa [Lexeme.token, Token.upTo, Lexeme.value] using And.intro opening noClose
  | quoted literal =>
    have missed : ⟨.unterminated, place⟩ ∈ (Lexeme.quoted literal).errors place := by
      rw [Lexeme.errors, Quoted.errors, if_neg unclosed]
      exact List.mem_append_right _ List.mem_cons_self
    refine .inl ⟨⟨.unterminated, place⟩, ?_, rfl⟩
    rw [errors_ofSource]
    exact List.mem_flatMap_of_mem placed missed
  | stray c => cases unclosed

/-- The lexemes of two texts with a line feed between them. -/
theorem placed_append_feed {source : String} (closed : ¬ (ofSource source).EndsInside)
    (more : List Char) :
    Tile.placed .start (Tile.cut (source.toList ++ '\n' :: more)) =
      Tile.placed .start (Tile.cut source.toList) ++
        (Tile.placed .start (Tile.cut more)).map fun entry =>
          (entry.1, entry.2.down (source.toList.count '\n' + 1)) := by
  have split := Tile.cut_append_feed
    (fun l member unclosed => closed (endsInside_of_unclosed member unclosed)) more
  have place : (Location.start.after source.toList).step '\n' =
      Location.start.down (source.toList.count '\n' + 1) := by
    rw [← Location.past_concat_feed, Location.past_concat, ← Location.past_nil, Location.after_past,
      List.nil_append]
  rw [split, Tile.placed_append, Tile.source_cut, Tile.placed, place, Tile.placed_down]

theorem tokens_append_feed {source : String} (closed : ¬ (ofSource source).EndsInside)
    (more : String) :
    (ofSource (source ++ "\n" ++ more)).tokens =
      (ofSource source).tokens.dropLast ++
        (ofSource more).tokens.map (Token.down (source.toList.count '\n' + 1)) := by
  have text : (source ++ "\n" ++ more).toList = source.toList ++ '\n' :: more.toList := by simp
  have mark : Token.endMark (.past (source.toList ++ '\n' :: more.toList)) =
      (Token.endMark (.past more.toList)).down (source.toList.count '\n' + 1) := by
    rw [Location.past_append_feed]
    rfl
  simp only [tokens_ofSource, text, mark, placed_append_feed closed, List.map_append, List.map_map,
    List.dropLast_concat, List.append_assoc, List.map_singleton]
  rfl

theorem errors_append_feed {source : String} (closed : ¬ (ofSource source).EndsInside)
    (more : String) :
    (ofSource (source ++ "\n" ++ more)).errors =
      (ofSource source).errors ++
        (ofSource more).errors.map (LexicalError.down (source.toList.count '\n' + 1)) := by
  have text : (source ++ "\n" ++ more).toList = source.toList ++ '\n' :: more.toList := by simp
  simp only [errors_ofSource, text, placed_append_feed closed, List.flatMap_append,
    List.flatMap_map, List.map_flatMap, Lexeme.errors_down]

end Scan

/-- Scanning goes line by line. The scan of two texts with a line feed between them gives the tokens
of the first one but its end mark, those of the second one further down by the lines of the first,
and the diagnostics of both in the same way, unless the first text ends within a lexeme. -/
theorem Sink.scan_append_feed (sink : Sink) (source more : String)
    (closed : ¬ (Scan.ofSource source).EndsInside) :
    let lines := source.toList.count '\n' + 1
    (sink.scan (source ++ "\n" ++ more)).1 =
      (sink.scan source).1.dropLast ++ (sink.scan more).1.map (Token.down lines) ∧
    (sink.scan (source ++ "\n" ++ more)).2.records =
      (sink.scan source).2.records ++
        ((Sink.empty sink.file).scan more).2.records.map (Diagnostic.down lines) := by
  refine ⟨Scan.tokens_append_feed closed more, ?_⟩
  simp only [scan, pushAll, empty, Scan.errors_append_feed closed more, List.map_append,
    List.map_map, List.nil_append, List.append_assoc]
  rfl

/-- A comment over two lines, a lone `!`, and a number with a point behind it at the end. -/
def firstText : String := "; a\nb ; ! 7."

/-- A digit, which would carry the number on, and a string literal with an unknown escape. -/
def secondText : String := "5 = \"\\q\""

theorem cut_firstText : Tile.cut firstText.toList =
    [.lexeme (.plain .comment [';', ' ', 'a', '\n', 'b', ' ', ';']), .blank ' ',
      .lexeme (.stray '!'), .blank ' ', .lexeme (.plain .intLiteral ['7']),
      .lexeme (.plain .dot ['.'])] := by
  decide +kernel

theorem cut_secondText : Tile.cut secondText.toList =
    [.lexeme (.plain .intLiteral ['5']), .blank ' ', .lexeme (.plain .assign ['=']), .blank ' ',
      .lexeme (.quoted ⟨[.escape 'q'], .closed⟩)] := by
  decide +kernel

/-- Each text is scanned as it is alone. -/
theorem Sink.scan_firstText_secondText :
    ¬ (Scan.ofSource firstText).EndsInside ∧
    ((empty none).scan (firstText ++ "\n" ++ secondText)).1.map (fun t => (t.lexeme, t.location)) =
      [("; a\nb ;", ⟨1, 1⟩), ("!", ⟨2, 5⟩), ("7", ⟨2, 7⟩), (".", ⟨2, 8⟩), ("5", ⟨3, 1⟩),
        ("=", ⟨3, 3⟩), ("q", ⟨3, 5⟩), ("", ⟨3, 9⟩)] ∧
    ((empty none).scan (firstText ++ "\n" ++ secondText)).2.records.map Diagnostic.summary =
      ["lexical error: Unexpected character '!' at 2:5",
        "lexical error: Invalid escape sequence '\\q' at 3:6"] := by
  have closed : ¬ (Scan.ofSource firstText).EndsInside := by
    rw [Scan.ofSource, cut_firstText]
    decide
  obtain ⟨tokens, records⟩ := scan_append_feed (.empty none) firstText secondText closed
  refine ⟨closed, ?_, ?_⟩
  · rw [tokens, scan, scan, Scan.ofSource, Scan.ofSource, cut_firstText, cut_secondText]
    decide
  · rw [records, scan, scan, Scan.ofSource, Scan.ofSource, cut_firstText, cut_secondText]
    decide

end Quill
