import Quill.Compilation
import Quill.Proofs.Lexeme.Spelling
import Quill.Proofs.Report.Recording

/-!
The scan of a source with a sink at hand: each fault is recorded where it is read, those of a string
literal from inside of it. It gives the tokens of `Sink.scan` and records the same
(`Recording.scan_eq`).
-/
namespace Quill.Recording

def lexical (cause : LexicalCause) (location : Location) : Recording Unit :=
  record (LexicalError.diagnostic ⟨cause, location⟩)

/-- Records a backslash that escapes nothing. -/
def escape (c : Char) (here : Location) : Recording Unit :=
  if (decodeEscape? c).isNone then lexical (.invalidEscape c) here else pure ()

/-- Reads the text after a quote that stands at `opening`. -/
def quoted (opening here : Location) : List Char → Recording (Quoted × List Char)
  | [] => do
    lexical .unterminated opening
    pure (⟨[], .unclosed⟩, [])
  | ['\\'] => do
    lexical .unterminated opening
    pure (⟨[], .dangling⟩, [])
  | '\\' :: c :: rest => do
    escape c here
    let read ← quoted opening (here.after ['\\', c]) rest
    pure (Quoted.push (.escape c) read)
  | c :: rest =>
    if c = '"' then pure (⟨[], .closed⟩, rest)
    else do
      let read ← quoted opening (here.step c) rest
      pure (Quoted.push (.char c) read)

/-- Reads the lexeme at the front of a source that starts with `c`, no blank. -/
def lexeme (here : Location) (c : Char) (rest : List Char) : Recording (Lexeme × List Char) :=
  if c = '"' then do
    let (literal, rest) ← quoted here (here.step '"') rest
    pure (.quoted literal, rest)
  else
    match Lexeme.read c rest with
    | (.stray c, rest) => do
      lexical (.unexpected c) here
      pure (.stray c, rest)
    | read => pure read

/-- What the errors of a literal that is still being read will be. -/
def quotedErrors (opening here : Location) (literal : Quoted) : List LexicalError :=
  Quoted.escapeErrors here literal.pieces ++
    if literal.ending = .closed then [] else [⟨.unterminated, opening⟩]

theorem gives_escape (c : Char) (here : Location) :
    Gives (escape c here) () ((if (decodeEscape? c).isNone then
      [⟨.invalidEscape c, here⟩] else []).map LexicalError.diagnostic) := by
  unfold escape
  split
  · exact gives_record _
  · exact gives_pure ()

theorem quotedErrors_escape (opening here : Location) (c : Char) (read : Quoted × List Char) :
    quotedErrors opening here (Quoted.push (.escape c) read).1 =
      (if (decodeEscape? c).isNone then [⟨.invalidEscape c, here⟩] else []) ++
        quotedErrors opening (here.after ['\\', c]) read.1 :=
  List.append_assoc ..

theorem gives_quoted (opening here : Location) (text : List Char) :
    Gives (quoted opening here text) (Quoted.read text)
      ((quotedErrors opening here (Quoted.read text).1).map LexicalError.diagnostic) := by
  fun_induction Quoted.read text generalizing here with
  | case1 => exact (gives_record _).bind_pure _
  | case2 => exact (gives_record _).bind_pure _
  | case3 c rest ih =>
    rw [quoted, quotedErrors_escape, List.map_append]
    exact (gives_escape c here).bind ((ih _).bind_pure _)
  | case4 rest notEnd notEscape =>
    rw [quoted]
    · exact gives_pure _
    · exact notEnd
    · exact notEscape
  | case5 c rest notEnd notEscape notQuote ih =>
    rw [quoted]
    · rw [if_neg notQuote]
      exact (ih _).bind_pure _
    · exact notEnd
    · exact notEscape

/-- No other character opens a string literal. -/
theorem read_ne_quoted {c : Char} (h : c ≠ '"') (rest : List Char) (literal : Quoted) :
    (Lexeme.read c rest).1 ≠ .quoted literal := by
  intro same
  obtain ⟨more, source⟩ := Lexeme.exists_source_read c rest
  rw [same, Lexeme.source] at source
  exact h (List.cons.inj source).1.symm

/-- What is read is what is read without a sink at hand. -/
theorem gives_lexeme (here : Location) (c : Char) (rest : List Char) :
    Gives (lexeme here c rest) (Lexeme.read c rest)
      (((Lexeme.read c rest).1.errors here).map LexicalError.diagnostic) := by
  unfold lexeme
  split
  · next quote =>
    subst quote
    exact (gives_quoted _ _ _).bind_pure fun read => (Lexeme.quoted read.1, read.2)
  · next other =>
    split
    · next read =>
      rw [read]
      exact (gives_record _).bind_pure _
    · next notStray =>
      -- Only literals and stray characters have faults, and this is neither.
      cases l : (Lexeme.read c rest).1 with
      | plain => exact gives_pure _
      | quoted literal => exact absurd l (read_ne_quoted other rest literal)
      | stray stray => exact (notStray stray (Lexeme.read c rest).2 (Prod.ext l rfl)).elim

def tokens (here : Location) (source : List Char) (sink : Sink) : List Token × Sink :=
  match source with
  | [] => ([.endMark here], sink)
  | c :: rest =>
    if Lexeme.isBlank c then tokens (here.step c) rest sink
    else
      let read := lexeme here c rest sink
      let more := tokens (here.after read.1.1.source) read.1.2 read.2
      (read.1.1.token here :: more.1, more.2)
termination_by source.length
decreasing_by
  · exact Nat.lt_succ_self _
  · rw [gives_lexeme here c rest sink]
    exact Nat.lt_succ_of_le (Lexeme.length_read_le c rest)

theorem gives_tokens (here : Location) (source : List Char) :
    Gives (tokens here source) (Tile.tokens here (Tile.cut source))
      ((Tile.errors here (Tile.cut source)).map LexicalError.diagnostic) := by
  fun_induction Tile.cut source generalizing here with
  | case1 =>
    intro sink
    rw [tokens]
    exact gives_pure _ sink
  | case2 c rest blank ih =>
    intro sink
    rw [tokens, if_pos blank]
    exact ih (here.step c) sink
  | case3 c rest notBlank ih =>
    intro sink
    rw [tokens, if_neg notBlank]
    dsimp only
    rw [gives_lexeme here c rest sink, ih, ← Sink.pushAll_append, ← List.map_append]
    rfl

/-- Scans a source and records each fault where it is read. -/
def scan (source : String) : Recording (List Token) := tokens .start source.toList

/-- That is the scan of a source. -/
theorem scan_eq (source : String) (sink : Sink) : scan source sink = sink.scan source :=
  gives_tokens .start source.toList sink

end Quill.Recording
