import Quill.Proofs.Grammar.Expression

/-!
Locality: a reader looks at the tokens that it passes and at the front one of those that it leaves,
and at no others. The tokens behind that one may be replaced, and the reader gives the same
(`Reader.local_statement`).
-/
namespace Quill

/-- The same outcome with other tokens left. -/
def Outcome.leaving {α : Type} (rest : List Token) : Outcome α → Outcome α
  | done value _ => .done value rest
  | failed cause _ => .failed cause rest

namespace Reader

variable {α β : Type} {tokens : List Token}

/-- The reader leaves some of the tokens, and gives the same when those that it leaves are replaced,
all but the front one. -/
structure Local (reader : Reader α) (tokens : List Token) : Prop where
  within : (reader tokens).Within tokens
  same : ∀ passed other : List Token, tokens = passed ++ (reader tokens).rest →
    (reader tokens).rest.head? = other.head? →
    reader (passed ++ other) = (reader tokens).leaving other

/-- The form for a reader that succeeds, where the caller knows which tokens it passes. -/
theorem Local.done {reader : Reader α} {passed rest other : List Token} {value : α}
    (h : Local reader (passed ++ rest)) (read : reader (passed ++ rest) = .done value rest)
    (front : rest.head? = other.head?) : reader (passed ++ other) = .done value other := by
  have same := h.same passed other
  rw [read] at same
  exact same rfl front

/-- The form for a reader that fails: it does so for the same cause and at the same place. -/
theorem Local.failed {reader : Reader α} {passed rest other : List Token} {cause : SyntaxCause}
    (h : Local reader (passed ++ rest)) (read : reader (passed ++ rest) = .failed cause rest)
    (front : rest.head? = other.head?) : reader (passed ++ other) = .failed cause other := by
  have same := h.same passed other
  rw [read] at same
  exact same rfl front

/-- The front token is one of those passed, which stay, or the front one of the rest. -/
theorem head?_append_congr (passed : List Token) {rest other : List Token}
    (h : rest.head? = other.head?) : (passed ++ rest).head? = (passed ++ other).head? := by
  cases passed with
  | nil => exact h
  | cons => rfl

/-- Readers that are the same in front of one token. -/
theorem local_of_front {reader known : Reader α}
    (h : ∀ other : List Token, tokens.head? = other.head? → reader other = known other)
    (hknown : Local known tokens) : Local reader tokens := by
  refine ⟨h tokens rfl ▸ hknown.within, fun passed other split front => ?_⟩
  have moved : tokens.head? = (passed ++ other).head? := by
    rw [split]
    exact head?_append_congr passed front
  rw [h tokens rfl] at split front ⊢
  rw [h _ moved]
  exact hknown.same passed other split front

/-- A reader that leaves all tokens. -/
theorem local_of_rest_eq {reader : Reader α} (left : (reader tokens).rest = tokens)
    (h : ∀ other : List Token, tokens.head? = other.head? →
      reader other = (reader tokens).leaving other) : Local reader tokens := by
  refine ⟨by simp [Outcome.Within, left], fun passed other split front => ?_⟩
  rw [left] at split front
  obtain rfl : passed = [] := by simpa using split
  exact h other front

/-- A reader that has nothing to read. -/
theorem local_nil {reader : Reader α} (left : (reader []).rest = []) : Local reader [] := by
  refine local_of_rest_eq left fun other front => ?_
  obtain rfl : other = [] := by simpa using front.symm
  cases read : reader [] with
  | done value rest => rw [read] at left; exact left ▸ rfl
  | failed cause rest => rw [read] at left; exact left ▸ rfl

theorem local_pure (value : α) : Local (pure value) tokens :=
  local_of_rest_eq rfl fun _ _ => rfl

/-- The reader that fails at the front token. -/
def fail (cause : SyntaxCause) : Reader α := fun tokens => .failed cause tokens

theorem local_fail (cause : SyntaxCause) : Local (fail cause : Reader α) tokens :=
  local_of_rest_eq rfl fun _ _ => rfl

/-- This reader is why `Local` must keep the front one of the tokens that are left. -/
theorem local_front? : Local front? tokens :=
  local_of_rest_eq rfl fun other front => by simp [front?, Outcome.leaving, front]

theorem local_skip : Local skip tokens := by
  cases tokens with
  | nil => exact local_nil rfl
  | cons t more =>
    refine ⟨sound_skip (t :: more), fun passed other split front => ?_⟩
    have one : passed = [t] := List.append_cancel_right (split.symm.trans rfl)
    rw [one]
    rfl

/-- Locality goes through a bind. What the first reader may look at beyond its own tokens is the
front of what the second one gets, so that one passes it or leaves it in front. The second reader
need be local only where the first one has led. -/
theorem local_bind {first : Reader α} {next : α → Reader β} (hfirst : Local first tokens)
    (hnext : ∀ value rest, first tokens = .done value rest → Local (next value) rest) :
    Local (first >>= next) tokens := by
  obtain ⟨within, onFirst⟩ := hfirst
  cases read : first tokens with
  | failed cause rest =>
    have outcome : (first >>= next) tokens = .failed cause rest := by
      rw [bind_apply, read]
      rfl
    rw [read] at within onFirst
    refine ⟨outcome ▸ within, fun passed other split front => ?_⟩
    rw [outcome] at split front ⊢
    rw [bind_apply, onFirst passed other split front]
    rfl
  | done value rest =>
    have outcome : (first >>= next) tokens = next value rest := bind_of_done read
    obtain ⟨withinNext, onNext⟩ := hnext value rest read
    rw [read] at within onFirst
    refine ⟨outcome ▸ withinNext.trans within, fun passed other split front => ?_⟩
    rw [outcome] at split front ⊢
    obtain ⟨before, whole⟩ : rest <:+ tokens := within
    obtain ⟨between, left⟩ := withinNext
    -- `first` passes `before`, and `next` passes `between`
    obtain rfl : passed = before ++ between := by
      refine List.append_cancel_right (split.symm.trans ?_)
      rw [← whole, List.append_assoc, left]
    have lookedAt : rest.head? = (between ++ other).head? := by
      rw [← left]
      exact head?_append_congr between front
    rw [List.append_assoc, bind_of_done (onFirst before (between ++ other) whole.symm lookedAt)]
    exact onNext between other left.symm front

/-- Readers that are the same in front of `t`. -/
theorem local_of_cons {reader known : Reader α} {t : Token} (hknown : Local known (t :: tokens))
    (h : ∀ more, reader (t :: more) = known (t :: more)) : Local reader (t :: tokens) := by
  refine local_of_front (fun other front => ?_) hknown
  cases other with
  | nil => cases front
  | cons first more =>
    obtain rfl : t = first := Option.some.inj front
    exact h more

/-- A reader that goes on after one token. -/
theorem local_cons {reader next : Reader α} {t : Token} (hnext : Local next tokens)
    (h : ∀ more, reader (t :: more) = next more) : Local reader (t :: tokens) := by
  have onward : Local (skip >>= fun _ => next) (t :: tokens) := by
    refine local_bind local_skip fun _ rest read => ?_
    cases read
    exact hnext
  exact local_of_cons onward h

/-- The one token is passed, or it is the front one of what is left. -/
theorem local_token (cause : SyntaxCause) (make? : Token → Option α) :
    Local (token cause make?) tokens := by
  cases tokens with
  | nil => exact local_nil rfl
  | cons t more =>
    cases made : make? t with
    | some value => exact local_cons (local_pure value) fun more => by simp [token, made]
    | none => exact local_of_cons (local_fail cause) fun more => by simp [token, made, fail]

theorem local_expect (cause : SyntaxCause) (kind : TokenKind) : Local (expect cause kind) tokens :=
  local_token cause _

theorem local_identifier (cause : SyntaxCause) : Local (identifier cause) tokens :=
  local_token cause _

theorem local_typeName (cause : SyntaxCause) : Local (typeName cause) tokens :=
  local_token cause _

theorem local_close (cause : SyntaxCause) (kind : TokenKind) (value : α) :
    Local (close cause kind value) tokens :=
  local_bind (local_expect cause kind) fun _ _ _ => local_pure value

theorem local_arraySize : Local arraySize tokens := by
  cases tokens with
  | nil => exact local_nil rfl
  | cons t more =>
    by_cases kind : t.kind = .intLiteral
    · cases size : Numeral.size? t.lexeme.toList with
      | some n =>
        exact local_cons (local_pure n) fun more => by simp [arraySize, kind, size]
      | none =>
        exact local_of_cons (local_fail .arraySizeRange)
          fun more => by simp [arraySize, kind, size, fail]
    · exact local_of_cons (local_fail .arraySize) fun more => by simp [arraySize, kind, fail]

/-- The readers of expressions call each other behind a token, so the induction is on the number of
tokens: there is no tree yet to go by. -/
private theorem operand_local_step
    (ih : ∀ fewer : List Token, fewer.length < tokens.length →
      Local expression fewer ∧ Local elements fewer) : Local operand tokens := by
  cases tokens with
  | nil => exact local_nil (by rw [operand_nil]; rfl)
  | cons t more =>
    obtain ⟨onExpression, onElements⟩ := ih more (by simp)
    cases literal : literal? t with
    | some outcome =>
      cases outcome with
      | ok value =>
        exact local_cons (local_pure (.literal value t.location))
          fun more => by simp [operand_eq_cons, literal]
      | error cause =>
        exact local_of_cons (local_fail cause)
          fun more => by simp [operand_eq_cons, literal, fail]
    | none =>
      by_cases identifier : t.kind = .identifier
      · exact local_cons (local_pure (.identifier t.lexeme t.location))
          fun more => by simp [operand_eq_cons, literal, identifier]
      by_cases parens : t.kind = .parenOpen
      · refine local_cons (local_bind onExpression fun value _ _ =>
          local_close .closeAfterExpression .parenClose value) fun more => ?_
        simp [operand_eq_cons, literal, parens]
      by_cases array : t.kind = .bracketOpen
      · refine local_cons (local_bind onElements fun es _ _ =>
          local_pure (Expr.array es t.location)) fun more => ?_
        simp [operand_eq_cons, literal, array]
        rfl
      · exact local_of_cons (local_fail .expression) fun more => by
          simp [operand_eq_cons, literal, identifier, parens, array, fail]

private theorem afterOperand_local_step (left : Expr)
    (ih : ∀ fewer : List Token, fewer.length < tokens.length → Local expression fewer) :
    Local (afterOperand left) tokens := by
  cases tokens with
  | nil => exact local_nil rfl
  | cons t more =>
    cases operator : Operator.ofKind? t.kind with
    | none =>
      exact local_of_cons (local_pure left) fun more => by simp [afterOperand, operator]
    | some operator' =>
      refine local_cons (local_bind (ih more (by simp)) fun right _ _ =>
        local_pure (Expr.binary left operator' right t.location)) fun more => ?_
      simp [afterOperand, operator]
      rfl

/-- The operand comes before anything is known to be passed, so it is given at the same tokens. -/
private theorem expression_local_step (hoperand : Local operand tokens)
    (ih : ∀ fewer : List Token, fewer.length < tokens.length → Local expression fewer) :
    Local expression tokens := by
  have same : expression = (operand >>= afterOperand) := funext expression_eq
  have advances := operand_advances tokens
  rw [same]
  refine local_bind hoperand fun left rest read => ?_
  rw [read] at advances
  exact afterOperand_local_step left fun fewer h => ih fewer (Nat.lt_trans h advances.2)

/-- Behind an element the next token decides, and the cases are those of that decision. -/
private theorem someElements_local_step (hexpression : Local expression tokens)
    (ih : ∀ fewer : List Token, fewer.length < tokens.length → Local someElements fewer) :
    Local someElements tokens := by
  have same : someElements = (expression >>= afterElement) := funext someElements_eq
  have advances := expression_advances tokens
  rw [same]
  refine local_bind hexpression fun first rest read => ?_
  rw [read] at advances
  cases rest with
  | nil => exact local_nil rfl
  | cons t more =>
    by_cases comma : t.kind = .comma
    · have fewer : more.length < tokens.length := Nat.lt_trans (by simp) advances.2
      refine local_cons (local_bind (ih more fewer) fun others _ _ =>
        local_pure (first :: others)) fun more => ?_
      simp [afterElement, comma]
      rfl
    by_cases closing : t.kind = .bracketClose
    · exact local_cons (local_pure [first]) fun more => by simp [afterElement, closing]
    · exact local_of_cons (local_fail .closeAfterElements) fun more => by
        simp [afterElement, comma, closing, fail]

private theorem elements_local_step (hsome : Local someElements tokens) :
    Local elements tokens := by
  cases tokens with
  | nil => exact local_nil (by rw [elements_eq]; rfl)
  | cons t more =>
    by_cases closing : t.kind = .bracketClose
    · exact local_cons (local_pure []) fun more => by simp [elements_eq, closing]
    · exact local_of_cons hsome fun more => by simp [elements_eq, closing]

/-- All four readers together, by the induction of their recursion. -/
private theorem readings_local (tokens : List Token) :
    Local operand tokens ∧ Local expression tokens ∧ Local someElements tokens ∧
      Local elements tokens :=
  reading_induction _ _ _ _ (fun _ => operand_local_step) (fun _ => expression_local_step)
    (fun _ => someElements_local_step) (fun _ => elements_local_step) tokens

theorem local_expression : Local expression tokens := (readings_local tokens).2.1

theorem local_elements : Local elements tokens := (readings_local tokens).2.2.2

/-- Goes on after an opening brace: `name}`. -/
def marker : Reader Segment := do
  let name ← token .markerName fun t => if t.kind = .identifier then some t else none
  expect .closeAfterMarkerName .braceClose
  pure (Segment.marker name.lexeme name.location)

def pieceAndMore (piece : Reader Segment) : Reader (List Segment) := do
  let first ← piece
  let more ← segments
  pure (first :: more)

theorem marker_of_identifier {name : Token} (kind : name.kind = .identifier)
    (more : List Token) : marker (name :: more) =
      close .closeAfterMarkerName .braceClose (.marker name.lexeme name.location) more :=
  bind_of_done (token_eq_done_iff.mpr ⟨name, rfl, by simp [kind]⟩)

theorem marker_of_other {name : Token} (kind : name.kind ≠ .identifier) (more : List Token) :
    marker (name :: more) = .failed .markerName (name :: more) := by
  have read : token .markerName (fun t => if t.kind = .identifier then some t else none)
      (name :: more) = .failed .markerName (name :: more) := by
    simp [token, kind]
  rw [marker, bind_apply, read]
  rfl

/-- The reader of pieces matches on three tokens at a time. Written as a bind it is one that
locality goes through. -/
theorem segments_of_open {t : Token} (kind : t.kind = .braceOpen) (more : List Token) :
    segments (t :: more) = pieceAndMore marker more := by
  rw [segments.eq_def, pieceAndMore]
  simp only [kind, bind_apply]
  cases more with
  | nil => rfl
  | cons name others =>
    by_cases identifier : name.kind = .identifier
    · rw [marker_of_identifier identifier]
      cases others with
      | nil =>
        simp [identifier]
        rfl
      | cons last others =>
        by_cases closing : last.kind = .braceClose
        · simp [identifier, closing, close, expect_of_kind closing]
          rfl
        · simp [identifier, closing, close, expect, token]
          rfl
    · rw [marker_of_other identifier]
      simp [identifier]
      rfl

theorem segments_of_text {t : Token} (notOpen : t.kind ≠ .braceOpen)
    (notClose : t.kind ≠ .bracketClose) (notMark : t.kind ≠ .endOfInput) (more : List Token) :
    segments (t :: more) = pieceAndMore (pure (.text t.lexeme)) more := by
  rw [segments.eq_def]
  dsimp only
  split
  · next kind => exact absurd kind notClose
  · next kind => exact absurd kind notMark
  · next kind => exact absurd kind notOpen
  · rfl

theorem local_marker : Local marker tokens :=
  local_bind (local_token _ _) fun _ _ _ => local_bind (local_expect _ _) fun _ _ _ => local_pure _

/-- Each piece is read from fewer tokens, so the induction is on their number. -/
theorem local_segments : Local segments tokens := by
  induction size : tokens.length using Nat.strongRecOn generalizing tokens with
  | ind n ih =>
    subst size
    cases tokens with
    | nil => exact local_nil rfl
    | cons t more =>
      have onward : ∀ piece : Reader Segment, Local piece more →
          Local (pieceAndMore piece) more := by
        intro piece onPiece
        have within := onPiece.within
        refine local_bind onPiece fun first rest read => ?_
        rw [read] at within
        have fewer : rest.length < (t :: more).length := Nat.lt_succ_of_le within.length_le
        exact local_bind (ih _ fewer rfl) fun _ _ _ => local_pure _
      by_cases opening : t.kind = .braceOpen
      · exact local_cons (onward marker local_marker) (segments_of_open opening)
      by_cases ending : t.kind = .bracketClose ∨ t.kind = .endOfInput
      · refine local_of_cons (local_pure []) fun more => ?_
        rw [segments.eq_def]
        rcases ending with kind | kind <;> simp [kind]
      · obtain ⟨notClose, notMark⟩ := not_or.mp ending
        exact local_cons (onward _ (local_pure _)) (segments_of_text opening notClose notMark)

theorem local_arrayLiteral : Local arrayLiteral tokens :=
  local_bind (local_token _ _) fun _ _ _ => local_bind local_elements fun _ _ _ => local_pure _

theorem local_scalarDeclaration (name : String) (location : Location) :
    Local (scalarDeclaration name location) tokens :=
  local_bind (local_typeName _) fun _ _ _ => local_bind (local_expect _ _) fun _ _ _ =>
    local_bind local_expression fun _ _ _ => local_pure _

theorem local_valuesDeclaration (name : String) (location : Location) :
    Local (valuesDeclaration name location) tokens :=
  local_bind (local_expect _ _) fun _ _ _ => local_bind (local_expect _ _) fun _ _ _ =>
    local_bind local_arrayLiteral fun _ _ _ => local_pure _

theorem local_sizedDeclaration (name : String) (location : Location) :
    Local (sizedDeclaration name location) tokens :=
  local_bind (local_typeName _) fun _ _ _ => local_bind (local_expect _ _) fun _ _ _ =>
    local_bind (local_expect _ _) fun _ _ _ => local_bind local_arraySize fun _ _ _ =>
      local_bind (local_expect _ _) fun _ _ _ => local_pure _

/-- The token behind the name is looked at to choose a reader, and not always passed. -/
theorem local_declaration (location : Location) : Local (declaration location) tokens := by
  refine local_bind (local_identifier _) fun name _ _ => local_bind local_front? fun front _ _ => ?_
  split
  · exact local_bind local_skip fun _ _ _ => local_valuesDeclaration name location
  · split
    · exact local_bind local_skip fun _ _ _ => local_sizedDeclaration name location
    · exact local_scalarDeclaration name location

theorem local_flagDeclaration (location : Location) : Local (flagDeclaration location) tokens :=
  local_bind (local_identifier _) fun _ _ _ => local_bind (local_expect _ _) fun _ _ _ =>
    local_bind local_expression fun _ _ _ => local_pure _

/-- A content has the place of the front token even if it passes none. -/
theorem local_content : Local content tokens := by
  have known : Local (segments >>= fun pieces => pure (Interpolation.ofSegments pieces
      ((tokens.head?.map (·.location)).getD .start))) tokens :=
    local_bind local_segments fun _ _ _ => local_pure _
  refine local_of_front (fun other front => ?_) known
  rw [front]
  rfl

theorem local_output (location : Location) : Local (output location) tokens :=
  local_bind (local_expect _ _) fun _ _ _ => local_bind local_content fun _ _ _ =>
    local_bind (local_expect _ _) fun _ _ _ => local_pure _

/-- No statement starts with any other token. -/
theorem statement_of_other {t : Token} (new : t.kind ≠ .new) (bl : t.kind ≠ .bl)
    (stdout : t.kind ≠ .stdout) (more : List Token) :
    statement (t :: more) = .failed .statement (t :: more) := by
  unfold statement
  dsimp only
  split
  · next kind => exact absurd kind new
  · next kind => exact absurd kind bl
  · next kind => exact absurd kind stdout
  · rfl

/-- The reader of statements looks no further than at the front of what it leaves. -/
theorem local_statement : Local statement tokens := by
  cases tokens with
  | nil => exact local_nil rfl
  | cons t more =>
    by_cases new : t.kind = .new
    · exact local_cons (local_declaration t.location) fun more => by simp [statement, new]
    by_cases bl : t.kind = .bl
    · exact local_cons (local_flagDeclaration t.location) fun more => by simp [statement, bl]
    by_cases stdout : t.kind = .stdout
    · exact local_cons (local_output t.location) fun more => by simp [statement, stdout]
    · exact local_of_cons (local_fail .statement) fun more => statement_of_other new bl stdout more

end Reader

end Quill
