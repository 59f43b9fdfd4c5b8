import Quill.Tree.Basic

/-!
The indented dump of a tree: a line for each node, two blanks for each level of nesting.
-/
namespace Quill

structure DumpLine where
  depth : Nat
  text : String
  deriving DecidableEq, Repr

def DumpLine.render (line : DumpLine) : String :=
  String.ofList (List.replicate (2 * line.depth) ' ') ++ line.text ++ "\n"

namespace Literal

def dumpText : Literal → String
  | integer value => "INT_LITERAL " ++ toString value
  | float value => "FLOAT_LITERAL " ++ value.sixPlaces
  | string value => "STRING_LITERAL \"" ++ value ++ "\""
  | bool value => "BOOL_LITERAL " ++ if value then "true" else "false"

end Literal

namespace Expr

mutual

def dump (depth : Nat) : Expr → List DumpLine
  | literal value _ => [⟨depth, value.dumpText⟩]
  | identifier name _ => [⟨depth, "IDENTIFIER '" ++ name ++ "'"⟩]
  | binary left operator right _ =>
    ⟨depth, "BINARY_OP " ++ operator.kind.name⟩ ::
      (dump (depth + 1) left ++ dump (depth + 1) right)
  | array elements _ =>
    ⟨depth, "ARRAY_LITERAL [" ++ toString elements.length ++ " elements]"⟩ ::
      dumpAll (depth + 1) elements

/-- The lines of expressions at one depth, one after the other. -/
def dumpAll (depth : Nat) : List Expr → List DumpLine
  | [] => []
  | expr :: rest => dump depth expr ++ dumpAll depth rest

end

end Expr

namespace Interpolation

/-- Parts and expressions in turn; when one list has run out, the rest of the other. -/
def dumpContent (depth : Nat) : List String → List Expr → List DumpLine
  | [], expressions => Expr.dumpAll depth expressions
  | part :: parts, expressions =>
    ⟨depth, "TEXT_PART \"" ++ part ++ "\""⟩ ::
      ((expressions.head?.map (Expr.dump depth)).getD [] ++
        dumpContent depth parts expressions.tail)

def dump (depth : Nat) (content : Interpolation) : List DumpLine :=
  ⟨depth, "STRING_INTERP [" ++ toString content.parts.length ++ " parts, " ++
      toString content.expressions.length ++ " expressions]"⟩ ::
    dumpContent (depth + 1) content.parts content.expressions

end Interpolation

namespace Stmt

def dump (depth : Nat) : Stmt → List DumpLine
  | scalar name type value _ =>
    ⟨depth, "VAR_DECL '" ++ name ++ "' type=" ++ type.kind.name⟩ :: value.dump (depth + 1)
  | array name (.values value) _ =>
    ⟨depth, "ARRAY_DECL '" ++ name ++ "'"⟩ :: value.dump (depth + 1)
  | array name (.sized type size) _ =>
    [⟨depth, "ARRAY_DECL '" ++ name ++ "' type=" ++ type.kind.name ++ " size=" ++ toString size⟩]
  | output content _ => ⟨depth, "STDOUT"⟩ :: content.dump (depth + 1)

end Stmt

namespace Program

def dumpLines (program : Program) : List DumpLine :=
  ⟨0, "PROGRAM (" ++ toString program.statements.length ++ " statements)"⟩ ::
    program.statements.flatMap (Stmt.dump 1)

def dump (program : Program) : String :=
  String.join (program.dumpLines.map DumpLine.render)

end Program

end Quill
