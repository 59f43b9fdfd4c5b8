import Quill.Lexeme.Basic

/-!
Taking the longest lexeme off the front of a source. Main statement: `source_read`, the lexeme and
the rest are the source.
-/
namespace Quill.Lexeme

/-- Blanks separate lexemes: space, tab, carriage return and line feed. -/
def isBlank (c : Char) : Bool :=
  c = ' ' || c = '\t' || c = '\r' || c = '\n'

/-- Names start with an ASCII letter or a low line. -/
def isNameStart (c : Char) : Bool :=
  c.isAlpha || c = '_'

/-- Names go on with ASCII letters, digits and low lines. -/
def isNamePart (c : Char) : Bool :=
  c.isAlphanum || c = '_'

/-- The kind of a character that is a token by itself. -/
def punctuation? : Char → Option TokenKind
  | '(' => some .parenOpen
  | ')' => some .parenClose
  | '[' => some .bracketOpen
  | ']' => some .bracketClose
  | '{' => some .braceOpen
  | '}' => some .braceClose
  | ',' => some .comma
  | '.' => some .dot
  | ':' => some .colon
  | '+' => some .plus
  | '-' => some .minus
  | '*' => some .star
  | '/' => some .slash
  | '%' => some .percent
  | '=' => some .assign
  | '<' => some .less
  | '>' => some .greater
  | _ => none

/-- The kind of a character and an equals sign after it. -/
def withEquals? : Char → Option TokenKind
  | '=' => some .equal
  | '!' => some .notEqual
  | '<' => some .lessEqual
  | '>' => some .greaterEqual
  | _ => none

/-- The lexeme of `c` and all that follows it as long as `p` holds. -/
def run (kind : TokenKind) (p : Char → Bool) (c : Char) (rest : List Char) : Lexeme × List Char :=
  (.plain kind (c :: rest.takeWhile p), rest.dropWhile p)

/-- A comment that starts with two marks: it ends before the line does. -/
def lineComment (c : Char) (rest : List Char) : Lexeme × List Char :=
  run .comment (· ≠ '\n') c rest

/-- A comment that starts with one semicolon: it ends with the next one, or with the source. -/
def blockComment (rest : List Char) : Lexeme × List Char :=
  let inner := rest.takeWhile (· ≠ ';')
  match rest.dropWhile (· ≠ ';') with
  | [] => (.plain .comment (';' :: inner), [])
  | close :: rest => (.plain .comment (';' :: (inner ++ [close])), rest)

/-- A word: a reserved one, or a name. -/
def word (c : Char) (rest : List Char) : Lexeme × List Char :=
  let text := c :: rest.takeWhile isNamePart
  let kind := (TokenKind.ofReserved? (String.ofList text)).getD .identifier
  (.plain kind text, rest.dropWhile isNamePart)

/-- A number: digits, and after a point more digits. A point without a digit is left alone. -/
def number (c : Char) (rest : List Char) : Lexeme × List Char :=
  let whole := c :: rest.takeWhile Char.isDigit
  match rest.dropWhile Char.isDigit with
  | '.' :: d :: rest =>
    if d.isDigit then
      (.plain .floatLiteral (whole ++ '.' :: d :: rest.takeWhile Char.isDigit),
        rest.dropWhile Char.isDigit)
    else (.plain .intLiteral whole, '.' :: d :: rest)
  | rest => (.plain .intLiteral whole, rest)

/-- The lexeme at the front of a source that starts with `c`, no blank, and the source after it. -/
def read (c : Char) (rest : List Char) : Lexeme × List Char :=
  if c = '"' then
    let (literal, rest) := Quoted.read rest
    (.quoted literal, rest)
  else if c = '/' ∧ rest.head? = some '/' then lineComment c rest
  else if c = ';' then
    if rest.head? = some ';' then lineComment c rest else blockComment rest
  else if c.isDigit then number c rest
  else if isNameStart c then word c rest
  else
    match withEquals? c, rest with
    | some kind, '=' :: rest => (.plain kind [c, '='], rest)
    | _, rest =>
      match punctuation? c with
      | some kind => (.plain kind [c], rest)
      | none => (.stray c, rest)

theorem source_run (kind : TokenKind) (p : Char → Bool) (c : Char) (rest : List Char) :
    (run kind p c rest).1.source ++ (run kind p c rest).2 = c :: rest := by
  simp [run, source, List.takeWhile_append_dropWhile]

theorem source_blockComment (rest : List Char) :
    (blockComment rest).1.source ++ (blockComment rest).2 = ';' :: rest := by
  have parts := List.takeWhile_append_dropWhile (p := (· ≠ ';')) (l := rest)
  unfold blockComment
  split
  · next tail => rw [tail] at parts; simpa [source] using parts
  · next close after tail => rw [tail] at parts; simpa [source] using parts

theorem source_word (c : Char) (rest : List Char) :
    (word c rest).1.source ++ (word c rest).2 = c :: rest := by
  simp [word, source, List.takeWhile_append_dropWhile]

theorem source_number (c : Char) (rest : List Char) :
    (number c rest).1.source ++ (number c rest).2 = c :: rest := by
  have parts := List.takeWhile_append_dropWhile (p := Char.isDigit) (l := rest)
  unfold number
  split
  · next d after tail =>
    rw [tail] at parts
    split
    · simpa [source, List.takeWhile_append_dropWhile] using parts
    · simpa [source] using parts
  · simp [source]

theorem source_read (c : Char) (rest : List Char) :
    (read c rest).1.source ++ (read c rest).2 = c :: rest := by
  unfold read
  split
  · next quote => simp [source, quote, Quoted.source_read]
  split
  · exact source_run ..
  split
  · next semicolon =>
    split
    · exact source_run ..
    · rw [semicolon]; exact source_blockComment rest
  split
  · exact source_number ..
  split
  · exact source_word ..
  split
  · simp [source]
  · split <;> simp [source]

/-- A lexeme takes at least the character that it starts with. -/
theorem length_read_le (c : Char) (rest : List Char) : (read c rest).2.length ≤ rest.length := by
  have whole := congrArg List.length (source_read c rest)
  have some_source : 0 < (read c rest).1.source.length := by
    unfold read
    split
    · simp [source]
    split
    · simp [lineComment, run, source]
    split
    · split
      · simp [lineComment, run, source]
      · unfold blockComment; split <;> simp [source]
    split
    · unfold number; split
      · split <;> simp [source]
      · simp [source]
    split
    · simp [word, source]
    split
    · simp [source]
    · split <;> simp [source]
  simp only [List.length_append, List.length_cons] at whole
  omega

end Quill.Lexeme
