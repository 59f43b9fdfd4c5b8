import Mathlib.Data.List.TakeWhile
import Quill.Proofs.Lexeme.Spelling

/-!
How tokens are written. A token that is not a string literal is written as it shows; a string
literal is written between quotes, with escapes. A token that is written in front of a text that
does not carry it on is read back, with no error and up to that text (`Written.read`).
-/
namespace Quill

/-- What holds of all characters of a text is decided along the text, not along all characters. -/
instance decidableForallMemChar (p : Char → Prop) [DecidablePred p] (text : List Char) :
    Decidable (∀ c ∈ text, p c) :=
  List.decidableBAll p text

structure BareToken where
  kind : TokenKind
  lexeme : String
  deriving DecidableEq, Repr

def Token.bare (t : Token) : BareToken := ⟨t.kind, t.lexeme⟩

/-- The operators and the punctuation of one character. -/
def TokenKind.signs : List (Char × TokenKind) :=
  [('=', assign), ('>', greater), ('<', less), ('[', bracketOpen), (']', bracketClose),
   ('{', braceOpen), ('}', braceClose), ('(', parenOpen), (')', parenClose),
   (',', comma), ('.', dot), (':', colon),
   ('+', plus), ('-', minus), ('*', star), ('/', slash), ('%', percent)]

/-- The operators of two characters, the second of which is an equals sign. -/
def TokenKind.doubleSigns : List (Char × TokenKind) :=
  [('=', equal), ('!', notEqual), ('>', greaterEqual), ('<', lessEqual)]

/-- A token that shows the text that it is written with. -/
inductive WellSpelled : TokenKind → List Char → Prop
  | name {c : Char} {text : List Char} (start : c.isAlpha = true ∨ c = '_')
      (parts : ∀ d ∈ text, d.isAlphanum = true ∨ d = '_')
      (free : String.ofList (c :: text) ∉ TokenKind.reserved.map (·.1)) :
      WellSpelled .identifier (c :: text)
  | reserved {word : String} {kind : TokenKind} (h : (word, kind) ∈ TokenKind.reserved) :
      WellSpelled kind word.toList
  | integer {text : List Char} (nonempty : text ≠ []) (digits : ∀ d ∈ text, d.isDigit = true) :
      WellSpelled .intLiteral text
  | decimal {whole part : List Char} (nonemptyWhole : whole ≠ []) (nonemptyPart : part ≠ [])
      (digitsWhole : ∀ d ∈ whole, d.isDigit = true) (digitsPart : ∀ d ∈ part, d.isDigit = true) :
      WellSpelled .floatLiteral (whole ++ '.' :: part)
  | sign {c : Char} {kind : TokenKind} (h : (c, kind) ∈ TokenKind.signs) : WellSpelled kind [c]
  | doubleSign {c : Char} {kind : TokenKind} (h : (c, kind) ∈ TokenKind.doubleSigns) :
      WellSpelled kind [c, '=']
  | lineComment {mark : Char} {text : List Char} (h : mark = '/' ∨ mark = ';')
      (oneLine : '\n' ∉ text) : WellSpelled .comment (mark :: mark :: text)
  | blockComment {text : List Char} (nonempty : text ≠ []) (closed : ';' ∉ text) :
      WellSpelled .comment (';' :: (text ++ [';']))

/-- The characters that can be escaped, and those that stand for them behind a backslash. -/
def escapes : List (Char × Char) :=
  [('\n', 'n'), ('\t', 't'), ('\r', 'r'), ('\\', '\\'), ('"', '"')]

/-- A text, and a way to write it between quotes. Quotes and backslashes must be escaped; line
feeds, tabs and carriage returns may be. -/
inductive Quotes : List Char → List Char → Prop
  | nil : Quotes [] []
  | plain {c : Char} {value inside : List Char} (notQuote : c ≠ '"') (notBackslash : c ≠ '\\')
      (h : Quotes value inside) : Quotes (c :: value) (c :: inside)
  | escape {c letter : Char} {value inside : List Char} (known : (c, letter) ∈ escapes)
      (h : Quotes value inside) : Quotes (c :: value) ('\\' :: letter :: inside)

/-- A token and the text that it is written with. -/
inductive Written (t : BareToken) : List Char → Prop
  | verbatim (h : WellSpelled t.kind t.lexeme.toList) : Written t t.lexeme.toList
  | quoted {inside : List Char} (kind : t.kind = .stringLiteral)
      (h : Quotes t.lexeme.toList inside) : Written t ('"' :: (inside ++ ['"']))

/-- The kinds of token that nothing carries on. -/
def TokenKind.closed : List TokenKind :=
  [parenOpen, parenClose, bracketOpen, bracketClose, braceOpen, braceClose, comma, stringLiteral]

/-- The characters that carry no token on: blanks, brackets, commas and quotes. -/
def breaks : List Char := [' ', '\t', '\r', '\n', '(', ')', '[', ']', '{', '}', ',', '"']

/-- A comment that goes on up to the end of its line. -/
def LineComment (text : List Char) : Prop := ['/', '/'] <+: text ∨ [';', ';'] <+: text

instance : DecidablePred LineComment := fun _ => inferInstanceAs (Decidable (_ ∨ _))

/-- What follows a token that is written with `text` does not carry it on: a line comment is
followed by a line feed, and any other token by a break, unless it is closed. -/
def Apart (kind : TokenKind) (text rest : List Char) : Prop :=
  ∀ c ∈ rest.head?, (c ∈ breaks ∨ kind ∈ TokenKind.closed) ∧ (LineComment text → c = '\n')

/-- The front of a list that has a property, in front of what has not. -/
theorem span_of_stop {p : Char → Bool} {text rest : List Char} (all : ∀ c ∈ text, p c = true)
    (stop : ∀ c ∈ rest.head?, p c = false) :
    (text ++ rest).takeWhile p = text ∧ (text ++ rest).dropWhile p = rest := by
  rw [List.takeWhile_append_of_pos all, List.dropWhile_append_of_pos all]
  cases rest with
  | nil => simp
  | cons c rest => simp [stop c rfl]

/-- What is left behind the front of a list that has a property starts with what has not. -/
theorem dropWhile_stop (p : Char → Bool) (text : List Char) :
    ∀ c ∈ (text.dropWhile p).head?, p c = false := by
  have first := List.head?_dropWhile_not p text
  intro c member
  rw [Option.mem_def.mp member] at first
  simpa using first

theorem not_mem_takeWhile (c : Char) (text : List Char) : c ∉ text.takeWhile (· ≠ c) := by
  intro member
  have other := List.mem_takeWhile_imp member
  simp at other

theorem breaks_stop {c : Char} (h : c ∈ breaks) :
    Lexeme.isNamePart c = false ∧ c.isDigit = false ∧ c ≠ '.' ∧ c ≠ '=' ∧ c ≠ '/' := by
  have all : ∀ c ∈ breaks,
      Lexeme.isNamePart c = false ∧ c.isDigit = false ∧ c ≠ '.' ∧ c ≠ '=' ∧ c ≠ '/' := by decide
  exact all c h

/-- A token ends where `rest` starts: with `rest` behind it, it does not go on. -/
structure Ends (kind : TokenKind) (text rest : List Char) : Prop where
  word : kind = .identifier ∨ kind ∈ TokenKind.reserved.map (·.2) →
    ∀ c ∈ rest.head?, ¬ (c.isAlphanum = true ∨ c = '_')
  digits : kind = .intLiteral ∨ kind = .floatLiteral → ∀ c ∈ rest.head?, c.isDigit = false
  point : kind = .intLiteral → ∀ c more, rest = '.' :: c :: more → c.isDigit = false
  equals : kind ∈ [.assign, .less, .greater] → rest.head? ≠ some '='
  slash : kind = .slash → rest.head? ≠ some '/'
  line : LineComment text → ∀ c ∈ rest.head?, c = '\n'

/-- A break follows a token that is not closed. -/
theorem Apart.breaks {kind : TokenKind} {text rest : List Char} (h : Apart kind text rest)
    (carriesOn : kind ∉ TokenKind.closed) : ∀ c ∈ rest.head?, c ∈ breaks :=
  fun c member => (h c member).1.resolve_right carriesOn

theorem Apart.ends {kind : TokenKind} {text rest : List Char} (h : Apart kind text rest) :
    Ends kind text rest := by
  have stop : kind ∉ TokenKind.closed → ∀ c ∈ rest.head?,
      Lexeme.isNamePart c = false ∧ c.isDigit = false ∧ c ≠ '.' ∧ c ≠ '=' ∧ c ≠ '/' :=
    fun carriesOn c member => breaks_stop (h.breaks carriesOn c member)
  have words : ∀ kind ∈ TokenKind.reserved.map (·.2), kind ∉ TokenKind.closed := by decide
  constructor
  case word =>
    intro isWord c member part
    have carriesOn : kind ∉ TokenKind.closed := by
      rcases isWord with rfl | reserved
      · decide
      · exact words kind reserved
    have other := (stop carriesOn c member).1
    rw [Lexeme.isNamePart] at other
    simp at other
    exact part.elim (by simp [other]) other.2
  case digits =>
    intro isNumber c member
    exact (stop (by rcases isNumber with rfl | rfl <;> decide) c member).2.1
  case point =>
    rintro rfl c more rfl
    exact absurd rfl (stop (by decide) '.' rfl).2.2.1
  case equals =>
    intro sign equals
    have carriesOn : ∀ kind ∈ [TokenKind.assign, .less, .greater], kind ∉ TokenKind.closed := by
      decide
    exact (stop (carriesOn kind sign) '=' equals).2.2.2.1 rfl
  case slash =>
    rintro rfl slash
    exact (stop (by decide) '/' slash).2.2.2.2 rfl
  case line => exact fun line c member => (h c member).2 line

namespace Lexeme

variable {c : Char} {tail rest : List Char}

theorem isBlank_iff : isBlank c = true ↔ c ∈ [' ', '\t', '\r', '\n'] := by
  simp [isBlank, or_assoc]

theorem isBlank_eq_false_iff : isBlank c = false ↔ c ∉ [' ', '\t', '\r', '\n'] := by
  rw [← isBlank_iff, Bool.not_eq_true]

theorem isNameStart_iff : isNameStart c = true ↔ c.isAlpha = true ∨ c = '_' := by
  simp [isNameStart]

theorem isNamePart_iff : isNamePart c = true ↔ c.isAlphanum = true ∨ c = '_' := by
  simp [isNamePart]

/-- A character of a class that has no blanks in it. -/
theorem not_isBlank_of {p : Char → Bool} (h : p c = true)
    (noBlank : ∀ blank ∈ [' ', '\t', '\r', '\n'], p blank = false) : isBlank c = false := by
  refine isBlank_eq_false_iff.mpr fun blank => ?_
  have fails := noBlank c blank
  rw [h] at fails
  cases fails

/-- No name starts with a digit. -/
theorem not_isDigit_of_isNameStart (h : isNameStart c = true) : c.isDigit = false := by
  rcases isNameStart_iff.mp h with letter | rfl
  · have cased : (decide ('A'.val ≤ c.val ∧ c.val ≤ 'Z'.val) ||
        decide ('a'.val ≤ c.val) && decide (c.val ≤ 'z'.val)) = true := letter
    simp only [Char.isDigit, Bool.or_eq_true, Bool.and_eq_true, decide_eq_true_eq,
      Bool.and_eq_false_iff, decide_eq_false_iff_not, UInt32.le_iff_toNat_le, ge_iff_le]
      at cased ⊢
    have nine : '9'.val.toNat = 57 := rfl
    have upper : 'A'.val.toNat = 65 := rfl
    have lower : 'a'.val.toNat = 97 := rfl
    omega
  · decide

theorem read_of_isDigit (h : c.isDigit = true) (rest : List Char) :
    read c rest = number c rest := by
  have notQuote : c ≠ '"' := by rintro rfl; cases h
  have notSlash : c ≠ '/' := by rintro rfl; cases h
  have notSemicolon : c ≠ ';' := by rintro rfl; cases h
  simp [read, notQuote, notSlash, notSemicolon, h]

theorem read_of_isNameStart (h : isNameStart c = true) (rest : List Char) :
    read c rest = word c rest := by
  have notQuote : c ≠ '"' := by rintro rfl; cases h
  have notSlash : c ≠ '/' := by rintro rfl; cases h
  have notSemicolon : c ≠ ';' := by rintro rfl; cases h
  simp [read, notQuote, notSlash, notSemicolon, not_isDigit_of_isNameStart h, h]

/-- A word is as long as it can be. -/
theorem read_word (start : isNameStart c = true) (parts : ∀ d ∈ tail, isNamePart d = true)
    (stop : ∀ d ∈ rest.head?, isNamePart d = false) :
    read c (tail ++ rest) =
      (.plain ((TokenKind.ofReserved? (String.ofList (c :: tail))).getD .identifier) (c :: tail),
        rest) := by
  obtain ⟨front, back⟩ := span_of_stop parts stop
  rw [read_of_isNameStart start, word, front, back]

/-- Digits that no point with a digit follows. -/
theorem read_integer (start : c.isDigit = true) (digits : ∀ d ∈ tail, d.isDigit = true)
    (stop : ∀ d ∈ rest.head?, d.isDigit = false)
    (noPart : ∀ d more, rest = '.' :: d :: more → d.isDigit = false) :
    read c (tail ++ rest) = (.plain .intLiteral (c :: tail), rest) := by
  obtain ⟨front, back⟩ := span_of_stop digits stop
  rw [read_of_isDigit start, number, front, back]
  split
  · next d more => rw [if_neg (by simp [noPart d more rfl])]
  · rfl

theorem read_decimal {part : List Char} (start : c.isDigit = true)
    (digits : ∀ d ∈ tail, d.isDigit = true) (nonempty : part ≠ [])
    (digitsPart : ∀ d ∈ part, d.isDigit = true) (stop : ∀ d ∈ rest.head?, d.isDigit = false) :
    read c (tail ++ '.' :: (part ++ rest)) =
      (.plain .floatLiteral (c :: (tail ++ '.' :: part)), rest) := by
  have atPoint : ∀ d ∈ ('.' :: (part ++ rest)).head?, d.isDigit = false := by
    intro d member
    cases member
    rfl
  obtain ⟨front, back⟩ := span_of_stop digits atPoint
  obtain ⟨first, more, rfl⟩ := List.exists_cons_of_ne_nil nonempty
  rw [List.forall_mem_cons] at digitsPart
  obtain ⟨frontPart, backPart⟩ := span_of_stop digitsPart.2 stop
  rw [read_of_isDigit start, number, front, back]
  simp only [List.cons_append, digitsPart.1, if_true, frontPart, backPart]

/-- A comment with two marks goes on up to a line feed. -/
theorem read_lineComment (h : c = '/' ∨ c = ';') (oneLine : '\n' ∉ tail)
    (stop : ∀ d ∈ rest.head?, d = '\n') :
    read c (c :: tail ++ rest) = (.plain .comment (c :: c :: tail), rest) := by
  have inside : ∀ d ∈ c :: tail, decide (d ≠ '\n') = true := by
    intro d member
    rcases List.mem_cons.mp member with rfl | member
    · rcases h with rfl | rfl <;> decide
    · exact decide_eq_true fun feed => oneLine (feed ▸ member)
  have stops : ∀ d ∈ rest.head?, decide (d ≠ '\n') = false := by
    intro d member
    simp [stop d member]
  obtain ⟨front, back⟩ := span_of_stop inside stops
  have comment : read c (c :: tail ++ rest) = lineComment c (c :: tail ++ rest) := by
    rcases h with rfl | rfl <;> rfl
  rw [comment, lineComment, run, front, back]

/-- A comment with one mark goes on up to the next one. -/
theorem read_blockComment (nonempty : tail ≠ []) (closed : ';' ∉ tail) :
    read ';' (tail ++ ';' :: rest) = (.plain .comment (';' :: (tail ++ [';'])), rest) := by
  have inside : ∀ d ∈ tail, decide (d ≠ ';') = true :=
    fun d member => decide_eq_true fun mark => closed (mark ▸ member)
  have stops : ∀ d ∈ (';' :: rest).head?, decide (d ≠ ';') = false := by
    intro d member
    cases member
    decide
  obtain ⟨front, back⟩ := span_of_stop inside stops
  obtain ⟨first, more, rfl⟩ := List.exists_cons_of_ne_nil nonempty
  have other : first ≠ ';' := fun mark => closed (by simp [mark])
  have comment : read ';' (first :: more ++ ';' :: rest) =
      blockComment (first :: more ++ ';' :: rest) := by
    simp [read, other]
  rw [comment, blockComment, front, back]

/-- What tells a sign from the start of any other token. -/
def OnlySign (c : Char) : Prop :=
  c ≠ '"' ∧ c ≠ ';' ∧ c.isDigit = false ∧ isNameStart c = false ∧ isBlank c = false

instance : DecidablePred OnlySign := fun _ => inferInstanceAs (Decidable (_ ∧ _))

theorem read_sign {kind : TokenKind} (only : OnlySign c) (h : punctuation? c = some kind)
    (noComment : c = '/' → rest.head? ≠ some '/')
    (noEquals : withEquals? c = none ∨ rest.head? ≠ some '=') :
    read c rest = (.plain kind [c], rest) := by
  obtain ⟨notQuote, notSemicolon, notDigit, notName, -⟩ := only
  have notComment : ¬(c = '/' ∧ rest.head? = some '/') := fun both => noComment both.1 both.2
  unfold read
  rw [if_neg notQuote, if_neg notComment, if_neg notSemicolon, if_neg (by simp [notDigit]),
    if_neg (by simp [notName])]
  split
  · next equals => simp [equals] at noEquals
  · simp [h]

theorem read_doubleSign {kind : TokenKind} (only : OnlySign c) (h : withEquals? c = some kind) :
    read c ('=' :: rest) = (.plain kind [c, '='], rest) := by
  obtain ⟨notQuote, notSemicolon, notDigit, notName, -⟩ := only
  simp [read, notQuote, notSemicolon, notDigit, notName, h]

end Lexeme

/-- Reading the source `text ++ rest` gives a lexeme, and leaves `rest`. -/
def Lexeme.ReadOff (text rest : List Char) (l : Lexeme) : Prop :=
  ∃ c tail, text = c :: tail ∧ isBlank c = false ∧ read c (tail ++ rest) = (l, rest)

namespace WellSpelled

open Lexeme

variable {text rest : List Char}

theorem word_readOff {c : Char} {tail : List Char} {kind : TokenKind}
    (start : isNameStart c = true) (parts : ∀ d ∈ tail, isNamePart d = true)
    (known : (TokenKind.ofReserved? (String.ofList (c :: tail))).getD .identifier = kind)
    (stop : ∀ d ∈ rest.head?, ¬ (d.isAlphanum = true ∨ d = '_')) :
    ReadOff (c :: tail) rest (.plain kind (c :: tail)) := by
  have notBlank := not_isBlank_of start (by decide)
  have noPart : ∀ d ∈ rest.head?, isNamePart d = false := fun d member =>
    Bool.eq_false_iff.mpr fun part => stop d member (isNamePart_iff.mp part)
  exact ⟨c, tail, rfl, notBlank, known ▸ read_word start parts noPart⟩

theorem reserved_readOff {word : String} {kind : TokenKind} (h : (word, kind) ∈ TokenKind.reserved)
    (stop : ∀ d ∈ rest.head?, ¬ (d.isAlphanum = true ∨ d = '_')) :
    ReadOff word.toList rest (.plain kind word.toList) := by
  have all : ∀ entry ∈ TokenKind.reserved, entry.1.toList.head?.any isNameStart = true ∧
      (∀ d ∈ entry.1.toList.tail, isNamePart d = true) ∧
      TokenKind.ofReserved? entry.1 = some entry.2 := by
    decide
  obtain ⟨start, parts, known⟩ := all _ h
  dsimp only at start parts known
  cases text_eq : word.toList with
  | nil => simp [text_eq] at start
  | cons c tail =>
    rw [text_eq] at start parts
    have same : String.ofList (c :: tail) = word := by rw [← text_eq, String.ofList_toList]
    exact word_readOff (by simpa using start) parts (by rw [same, known]; rfl) stop

theorem digits_readOff {kind : TokenKind} {c : Char} {tail : List Char} (start : c.isDigit = true)
    (h : Lexeme.read c (tail ++ rest) = (.plain kind (c :: tail), rest)) :
    ReadOff (c :: tail) rest (.plain kind (c :: tail)) := by
  have notBlank := not_isBlank_of start (by decide)
  exact ⟨c, tail, rfl, notBlank, h⟩

theorem sign_readOff {c : Char} {kind : TokenKind} (h : (c, kind) ∈ TokenKind.signs)
    (noEquals : kind ∈ [.assign, .less, .greater] → rest.head? ≠ some '=')
    (noSlash : kind = .slash → rest.head? ≠ some '/') :
    ReadOff [c] rest (.plain kind [c]) := by
  have all : ∀ entry ∈ TokenKind.signs, OnlySign entry.1 ∧ punctuation? entry.1 = some entry.2 ∧
      (entry.1 = '/' → entry.2 = .slash) ∧
      (withEquals? entry.1 = none ∨ entry.2 ∈ [.assign, .less, .greater]) := by
    decide
  obtain ⟨only, known, slash, equals⟩ := all _ h
  exact ⟨c, [], rfl, only.2.2.2.2,
    read_sign only known (fun isSlash => noSlash (slash isSlash)) (equals.imp_right noEquals)⟩

theorem readOff {kind : TokenKind} (h : WellSpelled kind text) (ends : Ends kind text rest) :
    ReadOff text rest (.plain kind text) := by
  cases h with
  | @name c tail start parts free =>
    have unknown := TokenKind.ofReserved?_eq_none_iff.mpr free
    have nameParts : ∀ d ∈ tail, isNamePart d = true :=
      fun d member => isNamePart_iff.mpr (parts d member)
    exact word_readOff (isNameStart_iff.mpr start) nameParts (by rw [unknown]; rfl)
      (ends.word (.inl rfl))
  | reserved h => exact reserved_readOff h (ends.word (.inr (List.mem_map_of_mem h)))
  | integer nonempty digits =>
    obtain ⟨c, tail, rfl⟩ := List.exists_cons_of_ne_nil nonempty
    rw [List.forall_mem_cons] at digits
    exact digits_readOff digits.1
      (read_integer digits.1 digits.2 (ends.digits (.inl rfl)) (ends.point rfl))
  | @decimal whole part nonemptyWhole nonemptyPart digitsWhole digitsPart =>
    obtain ⟨c, tail, rfl⟩ := List.exists_cons_of_ne_nil nonemptyWhole
    rw [List.forall_mem_cons] at digitsWhole
    have read := read_decimal digitsWhole.1 digitsWhole.2 nonemptyPart digitsPart
      (ends.digits (.inr rfl))
    rw [← List.cons_append, ← List.append_assoc] at read
    exact digits_readOff digitsWhole.1 read
  | sign h => exact sign_readOff h ends.equals ends.slash
  | @doubleSign c _ h =>
    have all : ∀ entry ∈ TokenKind.doubleSigns,
        OnlySign entry.1 ∧ withEquals? entry.1 = some entry.2 := by
      decide
    obtain ⟨only, known⟩ := all _ h
    exact ⟨c, ['='], rfl, only.2.2.2.2, read_doubleSign only known⟩
  | @lineComment mark tail h oneLine =>
    have line : LineComment (mark :: mark :: tail) := by
      rcases h with rfl | rfl
      · exact .inl (List.prefix_append ['/', '/'] tail)
      · exact .inr (List.prefix_append [';', ';'] tail)
    have notBlank : isBlank mark = false := by rcases h with rfl | rfl <;> decide
    exact ⟨mark, mark :: tail, rfl, notBlank, read_lineComment h oneLine (ends.line line)⟩
  | @blockComment tail nonempty closed =>
    refine ⟨';', tail ++ [';'], rfl, by decide, ?_⟩
    rw [List.append_assoc]
    exact read_blockComment nonempty closed

end WellSpelled

/-- A string literal is read back up to its closing quote, or up to the end of the source. -/
theorem Quoted.readOff {pieces : List QuotedPiece} {rest : List Char}
    (proper : ∀ piece ∈ pieces, piece.Proper) (ending : QuotedEnd)
    (ends : ending = .closed ∨ rest = []) :
    Lexeme.ReadOff ('"' :: (pieces.flatMap QuotedPiece.source ++ ending.source)) rest
      (.quoted ⟨pieces, ending⟩) := by
  refine ⟨'"', source ⟨pieces, ending⟩, rfl, by decide, ?_⟩
  have read : Quoted.read (source ⟨pieces, ending⟩ ++ rest) = (⟨pieces, ending⟩, rest) :=
    read_source proper ends
  simp [Lexeme.read, read]

/-- What is written between quotes are pieces without an error. -/
theorem Quotes.exists_pieces {value inside : List Char} (h : Quotes value inside) :
    ∃ pieces : List QuotedPiece, (∀ piece ∈ pieces, piece.Proper) ∧
      pieces.flatMap QuotedPiece.source = inside ∧ pieces.map QuotedPiece.value = value ∧
      ∀ here, Quoted.escapeErrors here pieces = [] := by
  induction h with
  | nil => exact ⟨[], by simp, rfl, rfl, fun _ => rfl⟩
  | @plain c value inside notQuote notBackslash h ih =>
    obtain ⟨pieces, proper, source, same, clean⟩ := ih
    refine ⟨.char c :: pieces, List.forall_mem_cons.mpr ⟨⟨notQuote, notBackslash⟩, proper⟩, ?_,
      congrArg (c :: ·) same, fun here => clean (here.step c)⟩
    rw [List.flatMap_cons, source]
    rfl
  | @escape c letter value inside known h ih =>
    obtain ⟨pieces, proper, source, same, clean⟩ := ih
    have all : ∀ entry ∈ escapes, decodeEscape? entry.2 = some entry.1 := by decide
    have decoded : decodeEscape? letter = some c := all _ known
    have stands : (QuotedPiece.escape letter).value = c := by simp [QuotedPiece.value, decoded]
    refine ⟨.escape letter :: pieces, List.forall_mem_cons.mpr ⟨trivial, proper⟩, ?_, ?_,
      fun here => ?_⟩
    · rw [List.flatMap_cons, source]
      rfl
    · rw [List.map_cons, stands, same]
    · simp [Quoted.escapeErrors, decoded, clean]

/-- A token is read back, without an error, if what follows does not carry it on. -/
theorem Written.read {t : BareToken} {text rest : List Char} (h : Written t text)
    (apart : Apart t.kind text rest) :
    ∃ l, Lexeme.ReadOff text rest l ∧ (∀ here, (l.token here).bare = t) ∧
      ∀ here, l.errors here = [] := by
  obtain ⟨kind, lexeme⟩ := t
  cases h with
  | verbatim h =>
    refine ⟨_, h.readOff apart.ends, fun here => ?_, fun here => rfl⟩
    simp [Token.bare, Lexeme.token, Token.upTo, Lexeme.kind, Lexeme.value]
  | quoted string h =>
    obtain ⟨pieces, proper, rfl, same, clean⟩ := h.exists_pieces
    refine ⟨.quoted ⟨pieces, .closed⟩, Quoted.readOff proper .closed (.inl rfl), fun here => ?_,
      fun here => ?_⟩
    · dsimp only at string
      simp [Token.bare, Lexeme.token, Token.upTo, Lexeme.kind, Lexeme.value, Quoted.value, same,
        string]
    · simp [Lexeme.errors, Quoted.errors, clean]

end Quill
