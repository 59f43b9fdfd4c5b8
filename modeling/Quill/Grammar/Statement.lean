import Quill.Grammar.Content
import Quill.Grammar.Expression

/-!
Reading statements. The first token tells a declaration from an output, and the token after the name
tells the three declarations that `new` opens from each other.
-/
namespace Quill.Reader

/-- Passes the front token, whatever it is. -/
def skip : Reader Unit := fun tokens => .done () tokens.tail

theorem sound_skip : Sound skip := fun tokens => List.tail_suffix tokens

def typeName (cause : SyntaxCause) : Reader TypeName :=
  token cause fun t => TypeName.ofKind? t.kind

def arrayLiteral : Reader Expr := do
  let location ← token .arrayLiteral fun t =>
    if t.kind = .bracketOpen then some t.location else none
  let elements ← elements
  pure (.array elements location)

def arraySize : Reader Nat
  | [] => .failed .arraySize []
  | t :: rest =>
    if t.kind ≠ .intLiteral then .failed .arraySize (t :: rest)
    else
      match Numeral.size? t.lexeme.toList with
      | some size => .done size rest
      | none => .failed .arraySizeRange (t :: rest)

/-- Goes on after `new name`: `type = expression`. -/
def scalarDeclaration (name : String) (location : Location) : Reader Stmt := do
  let type ← typeName .typeAfterName
  expect .valueAfterType .assign
  let value ← expression
  pure (.scalar name type value location)

/-- Goes on after `new name[`: `] = [elements]`. -/
def valuesDeclaration (name : String) (location : Location) : Reader Stmt := do
  expect .closeAfterOpen .bracketClose
  expect .valueAfterArray .assign
  let value ← arrayLiteral
  pure (.array name (.values value) location)

/-- Goes on after `new name{`: `type}[size]`. -/
def sizedDeclaration (name : String) (location : Location) : Reader Stmt := do
  let type ← typeName .elementType
  expect .closeAfterElementType .braceClose
  expect .openAfterElementType .bracketOpen
  let size ← arraySize
  expect .closeAfterSize .bracketClose
  pure (.array name (.sized type size) location)

/-- Goes on after `new`. -/
def declaration (location : Location) : Reader Stmt := do
  let name ← identifier .nameAfterNew
  let front ← front?
  if front = some .bracketOpen then
    skip
    valuesDeclaration name location
  else if front = some .braceOpen then
    skip
    sizedDeclaration name location
  else scalarDeclaration name location

/-- Goes on after `bl`: `name = expression`, of a truth value. -/
def flagDeclaration (location : Location) : Reader Stmt := do
  let name ← identifier .nameAfterBl
  expect .valueAfterName .assign
  let value ← expression
  pure (.scalar name .bool value location)

/-- Goes on after `stdout`: `[content]`. -/
def output (location : Location) : Reader Stmt := do
  expect .openAfterStdout .bracketOpen
  let content ← content
  expect .closeAfterContent .bracketClose
  pure (.output content location)

/-- Reads a statement. It stands where its first token does. -/
def statement : Reader Stmt
  | [] => .failed .statement []
  | t :: rest =>
    match t.kind with
    | .new => declaration t.location rest
    | .bl => flagDeclaration t.location rest
    | .stdout => output t.location rest
    | _ => .failed .statement (t :: rest)

theorem sound_typeName (cause : SyntaxCause) : Sound (typeName cause) := sound_token cause _

theorem sound_arrayLiteral : Sound arrayLiteral :=
  sound_bind (sound_token _ _) fun _ => sound_bind sound_elements fun _ => sound_pure _

theorem sound_arraySize : Sound arraySize := by
  intro tokens
  unfold arraySize
  split
  · exact List.suffix_refl _
  · split
    · exact List.suffix_refl _
    · split
      · exact List.suffix_cons ..
      · exact List.suffix_refl _

theorem sound_scalarDeclaration (name : String) (location : Location) :
    Sound (scalarDeclaration name location) :=
  sound_bind (sound_typeName _) fun _ => sound_bind (sound_expect _ _) fun _ =>
    sound_bind sound_expression fun _ => sound_pure _

theorem sound_valuesDeclaration (name : String) (location : Location) :
    Sound (valuesDeclaration name location) :=
  sound_bind (sound_expect _ _) fun _ => sound_bind (sound_expect _ _) fun _ =>
    sound_bind sound_arrayLiteral fun _ => sound_pure _

theorem sound_sizedDeclaration (name : String) (location : Location) :
    Sound (sizedDeclaration name location) :=
  sound_bind (sound_typeName _) fun _ => sound_bind (sound_expect _ _) fun _ =>
    sound_bind (sound_expect _ _) fun _ => sound_bind sound_arraySize fun _ =>
      sound_bind (sound_expect _ _) fun _ => sound_pure _

theorem sound_declaration (location : Location) : Sound (declaration location) := by
  refine sound_bind (sound_identifier _) fun name => sound_bind sound_front? fun front => ?_
  split
  · exact sound_bind sound_skip fun _ => sound_valuesDeclaration name location
  · split
    · exact sound_bind sound_skip fun _ => sound_sizedDeclaration name location
    · exact sound_scalarDeclaration name location

theorem sound_flagDeclaration (location : Location) : Sound (flagDeclaration location) :=
  sound_bind (sound_identifier _) fun _ => sound_bind (sound_expect _ _) fun _ =>
    sound_bind sound_expression fun _ => sound_pure _

theorem sound_content : Sound content := fun tokens => (sound_segments tokens).andThen_done

theorem sound_output (location : Location) : Sound (output location) :=
  sound_bind (sound_expect _ _) fun _ => sound_bind sound_content fun _ =>
    sound_bind (sound_expect _ _) fun _ => sound_pure _

theorem statement_advances (tokens : List Token) : (statement tokens).Advances tokens := by
  unfold statement
  split
  · exact List.suffix_refl _
  · next t rest =>
    split
    · exact (sound_declaration t.location rest).advances_cons
    · exact (sound_flagDeclaration t.location rest).advances_cons
    · exact (sound_output t.location rest).advances_cons
    · exact List.suffix_refl _

end Quill.Reader
