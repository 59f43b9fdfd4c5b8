import Quill.Token.Basic

/-!
Cursors: places in a token list. A cursor is a value, so to come back to a place one keeps it.
-/
namespace Quill

/-- A token list and the part of it that lies ahead. -/
structure Cursor where
  all : List Token
  ahead : List Token
  suffix : ahead <:+ all
  deriving DecidableEq, Repr

namespace Cursor

def start (tokens : List Token) : Cursor :=
  ⟨tokens, tokens, List.suffix_refl tokens⟩

/-- The number of tokens that lie behind. -/
def position (c : Cursor) : Nat :=
  c.all.length - c.ahead.length

def current? (c : Cursor) : Option Token :=
  c.ahead.head?

def next? (c : Cursor) : Option Token :=
  c.ahead.tail.head?

/-- The current token, or the last one of the list when all of them lie behind. -/
def currentOrLast? (c : Cursor) : Option Token :=
  c.current?.or c.all.getLast?

/-- The cursor at a later place of the same list. -/
def moveTo (c : Cursor) (rest : List Token) (later : rest <:+ c.ahead) : Cursor :=
  ⟨c.all, rest, later.trans c.suffix⟩

/-- The cursor one token on. It stays where it is when no token lies ahead. -/
def advance (c : Cursor) : Cursor :=
  c.moveTo c.ahead.tail (List.tail_suffix c.ahead)

def isAt (c : Cursor) (kind : TokenKind) : Bool :=
  c.current?.any (·.kind = kind)

/-- The cursor past the current token, if that is of a kind. -/
def consume? (c : Cursor) (kind : TokenKind) : Option Cursor :=
  if c.isAt kind then some c.advance else none

/-- Whether an end mark or nothing lies ahead. -/
def atEnd (c : Cursor) : Bool :=
  c.current?.all (·.kind = .endOfInput)

/-- The cursor past the comments that lie ahead. -/
def skipComments (c : Cursor) : Cursor :=
  c.moveTo (c.ahead.dropWhile (·.kind = .comment)) (List.dropWhile_suffix _)

end Cursor

end Quill
