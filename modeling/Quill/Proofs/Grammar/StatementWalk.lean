import Quill.Proofs.Grammar.Statement
import Quill.Proofs.Grammar.Walk

/-!
Statements read by an index. The walk for each kind of statement goes as its reader does from every
place of a token list, with a number of calls that depends on the length of the list only
(`Walk.Follows`, `Walk.follows_statement`).
-/
namespace Quill

namespace Walk

variable {α β : Type}

def identifier (cause : SyntaxCause) : Walk String :=
  token cause fun t => if t.kind = .identifier then some t.lexeme else none

def typeName (cause : SyntaxCause) : Walk TypeName :=
  token cause fun t => TypeName.ofKind? t.kind

def arraySize : Walk Nat := do
  match ← current? with
  | none => fail .arraySize
  | some t =>
    if t.kind ≠ .intLiteral then fail .arraySize
    else
      match Numeral.size? t.lexeme.toList with
      | some size => do
        advance
        pure size
      | none => fail .arraySizeRange

def scalarDeclaration (calls : Nat) (name : String) (location : Location) : Walk Stmt := do
  let type ← typeName .typeAfterName
  expect .valueAfterType .assign
  let value ← expression calls
  pure (.scalar name type value location)

def valuesDeclaration (calls : Nat) (name : String) (location : Location) : Walk Stmt := do
  expect .closeAfterOpen .bracketClose
  expect .valueAfterArray .assign
  let value ← arrayLiteral calls
  pure (.array name (.values value) location)

def sizedDeclaration (name : String) (location : Location) : Walk Stmt := do
  let type ← typeName .elementType
  expect .closeAfterElementType .braceClose
  expect .openAfterElementType .bracketOpen
  let size ← arraySize
  expect .closeAfterSize .bracketClose
  pure (.array name (.sized type size) location)

def declaration (calls : Nat) (location : Location) : Walk Stmt := do
  let name ← identifier .nameAfterNew
  if ← consume .bracketOpen then valuesDeclaration calls name location
  else if ← consume .braceOpen then sizedDeclaration name location
  else scalarDeclaration calls name location

def flagDeclaration (calls : Nat) (location : Location) : Walk Stmt := do
  let name ← identifier .nameAfterBl
  expect .valueAfterName .assign
  let value ← expression calls
  pure (.scalar name .bool value location)

def marker : Walk Segment := do
  let name ← token .markerName fun t => if t.kind = .identifier then some t else none
  expect .closeAfterMarkerName .braceClose
  pure (.marker name.lexeme name.location)

/-- Reads pieces up to a closing bracket or the end. Each of them is one round of a loop. -/
def segments : Nat → Walk (List Segment)
  | 0 => spent
  | calls + 1 => do
    match ← current? with
    | none => pure []
    | some t =>
      if t.kind = .bracketClose ∨ t.kind = .endOfInput then pure []
      else do
        advance
        let first ← if t.kind = .braceOpen then marker else pure (.text t.lexeme)
        let more ← segments calls
        pure (first :: more)

def content (calls : Nat) : Walk Interpolation := do
  let front ← current?
  let pieces ← segments calls
  pure (.ofSegments pieces ((front.map (·.location)).getD .start))

def output (calls : Nat) (location : Location) : Walk Stmt := do
  expect .openAfterStdout .bracketOpen
  let content ← content calls
  expect .closeAfterContent .bracketClose
  pure (.output content location)

def statement (calls : Nat) : Walk Stmt := do
  match ← current? with
  | none => fail .statement
  | some t =>
    match t.kind with
    | .new => do
      advance
      declaration calls t.location
    | .bl => do
      advance
      flagDeclaration calls t.location
    | .stdout => do
      advance
      output calls t.location
    | _ => fail .statement

/-- The walk goes as the reader reads from every place of the list. -/
def Follows (tokens : List Token) (walk : Walk α) (reader : Reader α) : Prop :=
  ∀ ahead, ahead <:+ tokens → Tracks tokens ahead walk (reader ahead)

variable {tokens ahead more : List Token} {t : Token} {calls : Nat} {name : String}
  {location : Location}

/-- The reader must be sound, so that the second walk starts at a place of the same list. -/
theorem Follows.bind {walk : Walk α} {reader : Reader α} {next : α → Walk β} {on : α → Reader β}
    (h : Follows tokens walk reader) (sound : reader.Sound)
    (h' : ∀ value, Follows tokens (next value) (on value)) :
    Follows tokens (walk >>= next) (reader >>= on) := by
  intro ahead within
  apply (h ahead within).bind
  intro value rest read
  exact h' value rest ((sound.suffix read).trans within)

theorem follows_pure (value : α) : Follows tokens (pure value) (pure value) :=
  fun _ _ => tracks_pure value

/-- A walk looks at its index where a reader looks at the front. -/
theorem follows_token (cause : SyntaxCause) (make? : Token → Option α) :
    Follows tokens (token cause make?) (Reader.token cause make?) :=
  fun _ within => tracks_token within cause make?

theorem follows_expect (cause : SyntaxCause) (kind : TokenKind) :
    Follows tokens (expect cause kind) (Reader.expect cause kind) :=
  follows_token cause _

theorem follows_identifier (cause : SyntaxCause) :
    Follows tokens (identifier cause) (Reader.identifier cause) :=
  follows_token cause _

theorem follows_typeName (cause : SyntaxCause) :
    Follows tokens (typeName cause) (Reader.typeName cause) :=
  follows_token cause _

theorem follows_arraySize : Follows tokens arraySize Reader.arraySize := by
  intro ahead within
  apply tracks_current within
  cases ahead with
  | nil => exact tracks_fail _
  | cons t more =>
    simp only [List.head?_cons, Reader.arraySize]
    by_cases other : t.kind ≠ .intLiteral
    · rw [if_pos other, if_pos other]
      exact tracks_fail _
    · rw [if_neg other, if_neg other]
      cases Numeral.size? t.lexeme.toList with
      | some size => exact tracks_advance within (tracks_pure size)
      | none => exact tracks_fail _

/-- Calls that are enough for a list are enough for the part of it that lies ahead. -/
theorem Suffices.follows {extra : Nat} {walk : Nat → Walk α} {reader : Reader α}
    (h : ∀ ahead, Suffices tokens extra walk reader ahead)
    (enough : 4 * tokens.length + extra ≤ calls) : Follows tokens (walk calls) reader := by
  intro ahead within
  have fits := within.length_le
  exact h ahead within calls (by omega)

theorem follows_sizedDeclaration :
    Follows tokens (sizedDeclaration name location) (Reader.sizedDeclaration name location) :=
  (follows_typeName _).bind (Reader.sound_typeName _) fun _ =>
    (follows_expect _ _).bind (Reader.sound_expect _ _) fun _ =>
      (follows_expect _ _).bind (Reader.sound_expect _ _) fun _ =>
        follows_arraySize.bind Reader.sound_arraySize fun _ =>
          (follows_expect _ _).bind (Reader.sound_expect _ _) fun _ => follows_pure _

theorem follows_marker : Follows tokens marker Reader.marker :=
  (follows_token _ _).bind (Reader.sound_token _ _) fun _ =>
    (follows_expect _ _).bind (Reader.sound_expect _ _) fun _ => follows_pure _

theorem sound_marker : Reader.marker.Sound := fun _ => Reader.local_marker.within

/-- One piece is read, and then the others from where it ends. -/
private theorem piece_tracks {piece : Walk Segment} {reader : Reader Segment}
    (follows : Follows tokens piece reader) (sound : reader.Sound) (behind : more <:+ tokens)
    (later : ∀ rest, rest <:+ more →
      Tracks tokens rest (segments calls) (Reader.segments rest)) :
    Tracks tokens more (do
        let first ← piece
        let others ← segments calls
        pure (first :: others))
      (Reader.pieceAndMore reader more) := by
  apply (follows more behind).bind
  intro first rest read
  apply (later rest (sound.suffix read)).bind
  intro others last _
  exact tracks_pure _

/-- The loop needs a round for each token ahead, and one to see that it has ended. -/
theorem segments_tracks (within : ahead <:+ tokens) (enough : ahead.length < calls) :
    Tracks tokens ahead (segments calls) (Reader.segments ahead) := by
  induction calls generalizing ahead with
  | zero => omega
  | succ calls ih =>
    rw [segments]
    apply tracks_current within
    cases ahead with
    | nil =>
      rw [Reader.segments.eq_def]
      exact tracks_pure []
    | cons t more =>
      have behind : more <:+ tokens := (List.suffix_cons t more).trans within
      have later : ∀ rest, rest <:+ more →
          Tracks tokens rest (segments calls) (Reader.segments rest) := by
        intro rest left
        have shorter := left.length_le
        rw [List.length_cons] at enough
        exact ih (left.trans behind) (by omega)
      simp only [List.head?_cons]
      by_cases ending : t.kind = .bracketClose ∨ t.kind = .endOfInput
      · have stops : Reader.segments (t :: more) = .done [] (t :: more) := by
          rw [Reader.segments.eq_def]
          rcases ending with kind | kind <;> simp only [kind]
        rw [if_pos ending, stops]
        exact tracks_pure []
      rw [if_neg ending]
      apply tracks_advance within
      by_cases opening : t.kind = .braceOpen
      · rw [if_pos opening, Reader.segments_of_open opening]
        exact piece_tracks follows_marker sound_marker behind later
      · obtain ⟨notClose, notMark⟩ := not_or.mp ending
        rw [if_neg opening, Reader.segments_of_text opening notClose notMark]
        exact piece_tracks (follows_pure _) (Reader.sound_pure _) behind later

/-- A token of another kind is not passed. -/
theorem head?_ne_of_kind {kind : TokenKind} (other : ahead.head?.map (·.kind) ≠ some kind) :
    ∀ t ∈ ahead.head?, t.kind ≠ kind := by
  rintro t front rfl
  exact other (by rw [Option.mem_def.mp front]; rfl)

section

variable (enough : 4 * tokens.length + 3 ≤ calls)

include enough

theorem follows_expression :
    Follows tokens (expression calls) Reader.expression :=
  Suffices.follows (expression_suffices tokens) enough

theorem follows_operand :
    Follows tokens (operand calls) Reader.operand :=
  Suffices.follows (operand_suffices tokens) (by omega)

theorem follows_arrayLiteral :
    Follows tokens (arrayLiteral calls) Reader.arrayLiteral :=
  Suffices.follows (arrayLiteral_suffices tokens) (by omega)

theorem follows_scalarDeclaration :
    Follows tokens (scalarDeclaration calls name location)
      (Reader.scalarDeclaration name location) :=
  (follows_typeName _).bind (Reader.sound_typeName _) fun _ =>
    (follows_expect _ _).bind (Reader.sound_expect _ _) fun _ =>
      (follows_expression enough).bind Reader.sound_expression fun _ => follows_pure _

theorem follows_valuesDeclaration :
    Follows tokens (valuesDeclaration calls name location)
      (Reader.valuesDeclaration name location) :=
  (follows_expect _ _).bind (Reader.sound_expect _ _) fun _ =>
    (follows_expect _ _).bind (Reader.sound_expect _ _) fun _ =>
      (follows_arrayLiteral enough).bind Reader.sound_arrayLiteral fun _ => follows_pure _

theorem follows_flagDeclaration :
    Follows tokens (flagDeclaration calls location) (Reader.flagDeclaration location) :=
  (follows_identifier _).bind (Reader.sound_identifier _) fun _ =>
    (follows_expect _ _).bind (Reader.sound_expect _ _) fun _ =>
      (follows_expression enough).bind Reader.sound_expression fun _ => follows_pure _

/-- The token behind the name is looked at on both sides before a form is chosen. -/
theorem follows_declaration :
    Follows tokens (declaration calls location) (Reader.declaration location) := by
  apply (follows_identifier _).bind (Reader.sound_identifier _)
  intro name ahead within
  show Tracks _ _ _ ((if ahead.head?.map Token.kind = some .bracketOpen then _
    else if ahead.head?.map Token.kind = some .braceOpen then _ else _ : Reader Stmt) ahead)
  by_cases bracket : ahead.head?.map (·.kind) = some .bracketOpen
  · obtain ⟨t, more, rfl, kind⟩ := Reader.exists_cons_of_front bracket
    rw [if_pos bracket]
    apply tracks_consume_of_kind within kind
    exact follows_valuesDeclaration enough more ((List.suffix_cons t more).trans within)
  rw [if_neg bracket]
  apply tracks_consume_of_other within (head?_ne_of_kind bracket)
  by_cases brace : ahead.head?.map (·.kind) = some .braceOpen
  · obtain ⟨t, more, rfl, kind⟩ := Reader.exists_cons_of_front brace
    rw [if_pos brace]
    apply tracks_consume_of_kind within kind
    exact follows_sizedDeclaration more ((List.suffix_cons t more).trans within)
  · rw [if_neg brace]
    apply tracks_consume_of_other within (head?_ne_of_kind brace)
    exact follows_scalarDeclaration enough ahead within

theorem follows_content :
    Follows tokens (content calls) Reader.content := by
  intro ahead within
  have fits := within.length_le
  apply tracks_current within
  apply (segments_tracks within (by omega)).bind
  intro pieces rest _
  exact tracks_pure _

theorem follows_output :
    Follows tokens (output calls location) (Reader.output location) :=
  (follows_expect _ _).bind (Reader.sound_expect _ _) fun _ =>
    (follows_content enough).bind Reader.sound_content fun _ =>
      (follows_expect _ _).bind (Reader.sound_expect _ _) fun _ => follows_pure _

/-- With this the loop over statements never runs out of calls within one of them. -/
theorem follows_statement :
    Follows tokens (statement calls) Reader.statement := by
  intro ahead within
  apply tracks_current within
  cases ahead with
  | nil => exact tracks_fail _
  | cons t more =>
    have behind : more <:+ tokens := (List.suffix_cons t more).trans within
    simp only [List.head?_cons]
    by_cases new : t.kind = .new
    · simp only [Reader.statement, new]
      exact tracks_advance within (follows_declaration enough more behind)
    by_cases bl : t.kind = .bl
    · simp only [Reader.statement, bl]
      exact tracks_advance within (follows_flagDeclaration enough more behind)
    by_cases stdout : t.kind = .stdout
    · simp only [Reader.statement, stdout]
      exact tracks_advance within (follows_output enough more behind)
    rw [Reader.statement_of_other new bl stdout]
    split
    · next kind => exact absurd kind new
    · next kind => exact absurd kind bl
    · next kind => exact absurd kind stdout
    · exact tracks_fail _

end

end Walk

end Quill
