import Quill.Lexeme.Error

/-!
String literals, from the opening quote to the closing one or to the end of the source. A literal is
kept as the pieces that were read, so both its source text and the text that it stands for can be
had from it. Main statement: `source_read`, reading loses no character.
-/
namespace Quill

/-- The character that a backslash and `c` stand for, if it is one of the five escapes. -/
def decodeEscape? : Char → Option Char
  | 'n' => some '\n'
  | 't' => some '\t'
  | 'r' => some '\r'
  | '\\' => some '\\'
  | '"' => some '"'
  | _ => none

/-- A piece of a string literal: a character for itself, or a backslash with the one after it. -/
inductive QuotedPiece where
  | char (c : Char)
  | escape (c : Char)
  deriving DecidableEq, Repr

namespace QuotedPiece

def source : QuotedPiece → List Char
  | char c => [c]
  | escape c => ['\\', c]

/-- The character that the piece stands for. An unknown escape stands for the escaped character. -/
def value : QuotedPiece → Char
  | char c => c
  | escape c => (decodeEscape? c).getD c

end QuotedPiece

inductive QuotedEnd where
  /-- With its closing quote. -/
  | closed
  /-- With the source. -/
  | unclosed
  /-- With the source, just after a backslash. -/
  | dangling
  deriving DecidableEq, Repr

namespace QuotedEnd

def source : QuotedEnd → List Char
  | closed => ['"']
  | unclosed => []
  | dangling => ['\\']

end QuotedEnd

/-- What follows the opening quote of a string literal. -/
structure Quoted where
  pieces : List QuotedPiece
  ending : QuotedEnd
  deriving DecidableEq, Repr

namespace Quoted

def source (literal : Quoted) : List Char :=
  literal.pieces.flatMap QuotedPiece.source ++ literal.ending.source

def value (literal : Quoted) : List Char :=
  literal.pieces.map QuotedPiece.value

/-- The literal with one more piece in front. -/
def push (piece : QuotedPiece) (read : Quoted × List Char) : Quoted × List Char :=
  (⟨piece :: read.1.pieces, read.1.ending⟩, read.2)

/-- Reads the text after an opening quote and gives the literal and the source after it. -/
def read : List Char → Quoted × List Char
  | [] => (⟨[], .unclosed⟩, [])
  | ['\\'] => (⟨[], .dangling⟩, [])
  | '\\' :: c :: rest => push (.escape c) (read rest)
  | c :: rest => if c = '"' then (⟨[], .closed⟩, rest) else push (.char c) (read rest)

theorem source_read (text : List Char) : (read text).1.source ++ (read text).2 = text := by
  fun_induction read text <;>
    simp_all [push, source, QuotedPiece.source, QuotedEnd.source]

/-- The invalid escapes among the pieces that start at `here`, from left to right. -/
def escapeErrors (here : Location) : List QuotedPiece → List LexicalError
  | [] => []
  | .char c :: pieces => escapeErrors (here.step c) pieces
  | .escape c :: pieces =>
    (if (decodeEscape? c).isNone then [⟨.invalidEscape c, here⟩] else []) ++
      escapeErrors (here.after ['\\', c]) pieces

/-- The errors of a literal whose opening quote stands at `here`: its invalid escapes, then the
missing closing quote. -/
def errors (literal : Quoted) (here : Location) : List LexicalError :=
  escapeErrors (here.step '"') literal.pieces ++
    if literal.ending = .closed then [] else [⟨.unterminated, here⟩]

end Quoted

end Quill
