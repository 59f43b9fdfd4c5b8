import Quill.Lexeme.Read

/-!
The scan of a source. It is cut into tiles, blanks and lexemes, that follow each other without a
gap; each tile stands where the ones before it end. The tokens and the errors are read off the
tiles. Main statement: `Tile.source_cut`, the tiles put together are the source.
-/
namespace Quill

/-- A blank, or the source of one token. -/
inductive Tile where
  | blank (c : Char)
  | lexeme (l : Lexeme)
  deriving DecidableEq, Repr

namespace Tile

def source : Tile → List Char
  | blank c => [c]
  | lexeme l => l.source

/-- Cuts a source into its tiles. -/
def cut : List Char → List Tile
  | [] => []
  | c :: rest =>
    if Lexeme.isBlank c then blank c :: cut rest
    else lexeme (Lexeme.read c rest).1 :: cut (Lexeme.read c rest).2
termination_by source => source.length
decreasing_by
  · simp
  · have := Lexeme.length_read_le c rest
    simp only [List.length_cons]
    omega

theorem source_cut (text : List Char) : (cut text).flatMap source = text := by
  fun_induction cut text with
  | case1 => rfl
  | case2 c rest blank ih => simp [ih, source]
  | case3 c rest notBlank ih => simp [ih, source, Lexeme.source_read]

/-- The tokens of tiles that start at `here`, and the end mark after them. -/
def tokens (here : Location) : List Tile → List Token
  | [] => [.endMark here]
  | blank c :: tiles => tokens (here.step c) tiles
  | lexeme l :: tiles => l.token here :: tokens (here.after l.source) tiles

/-- The errors of tiles that start at `here`, from left to right. -/
def errors (here : Location) : List Tile → List LexicalError
  | [] => []
  | blank c :: tiles => errors (here.step c) tiles
  | lexeme l :: tiles => l.errors here ++ errors (here.after l.source) tiles

end Tile

/-- What the scan of a source gives. A source with errors has tokens as well. -/
structure Scan where
  tokens : List Token
  errors : List LexicalError
  deriving DecidableEq, Repr

def Scan.ofSource (source : String) : Scan :=
  let tiles := Tile.cut source.toList
  ⟨Tile.tokens .start tiles, Tile.errors .start tiles⟩

end Quill
