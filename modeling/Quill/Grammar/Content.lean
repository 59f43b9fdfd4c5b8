import Quill.Grammar.Reader
import Quill.Tree.Basic

/-!
Reading the content of an output statement: any tokens up to the closing bracket, with the markers
`{name}` among them. The lexemes of the text between two markers are put together with single
blanks.
-/
namespace Quill

/-- A piece of the content: a token that stands for its lexeme, or a marked name. -/
inductive Segment where
  | text (lexeme : String)
  | marker (name : String) (location : Location)
  deriving DecidableEq, Repr

namespace Reader

/-- Reads pieces up to a closing bracket or the end, which is left. -/
def segments : List Token → Outcome (List Segment)
  | [] => .done [] []
  | t :: rest =>
    match t.kind with
    | .bracketClose | .endOfInput => .done [] (t :: rest)
    | .braceOpen =>
      match rest with
      | [] => .failed .markerName []
      | name :: rest =>
        if name.kind ≠ .identifier then .failed .markerName (name :: rest)
        else
          match rest with
          | [] => .failed .closeAfterMarkerName []
          | close :: rest =>
            if close.kind ≠ .braceClose then .failed .closeAfterMarkerName (close :: rest)
            else
              (segments rest).andThen fun more =>
                .done (.marker name.lexeme name.location :: more)
    | _ => (segments rest).andThen fun more => .done (.text t.lexeme :: more)

theorem sound_segments : Sound segments := by
  intro tokens
  fun_induction segments tokens with
  | case1 => exact List.suffix_refl _
  | case2 => exact List.suffix_refl _
  | case3 => exact List.suffix_refl _
  | case4 => exact List.suffix_cons ..
  | case5 => exact List.suffix_cons ..
  | case6 t _ name _ => exact List.suffix_append [t, name] []
  | case7 t _ name _ mark rest _ => exact List.suffix_append [t, name] (mark :: rest)
  | case8 t _ name _ mark rest _ ih =>
    exact (ih.trans (List.suffix_append [t, name, mark] rest)).andThen_done
  | case9 t rest _ _ _ ih => exact (ih.trans (List.suffix_cons t rest)).andThen_done

end Reader

/-- An interpolation in the making: what is complete, and the text since the last marker. -/
structure Draft where
  parts : List String
  expressions : List Expr
  pending : String
  deriving Repr

namespace Draft

def empty : Draft := ⟨[], [], ""⟩

/-- The parts, with the pending text as the last one. Empty text makes no part. -/
def allParts (draft : Draft) : List String :=
  if draft.pending = "" then draft.parts else draft.parts ++ [draft.pending]

/-- Adds a lexeme to the pending text, after a blank unless it is the first. -/
def addText (draft : Draft) (lexeme : String) : Draft :=
  { draft with
    pending := if draft.pending = "" then lexeme else draft.pending ++ " " ++ lexeme }

def add (draft : Draft) : Segment → Draft
  | .text lexeme => draft.addText lexeme
  | .marker name location =>
    ⟨draft.allParts, draft.expressions ++ [.identifier name location], ""⟩

end Draft

/-- The interpolation that the pieces of a content make. -/
def Interpolation.ofSegments (segments : List Segment) (location : Location) : Interpolation :=
  let draft := segments.foldl Draft.add .empty
  ⟨draft.allParts, draft.expressions, location⟩

namespace Reader

/-- Reads the content of an output statement. It stands where its first token does. -/
def content : Reader Interpolation := fun tokens =>
  (segments tokens).andThen fun pieces =>
    .done (.ofSegments pieces ((tokens.head?.map (·.location)).getD .start))

end Reader

end Quill
