import Quill.Proofs.Grammar.Attempt
import Quill.Proofs.Grammar.Locality
import Quill.Proofs.Tree.Source

/-!
Places make no difference to the readers. When the places of the tokens are dropped, each reader
gives what it gave before, with the places in it dropped (`Parse.ofTokens_unplaced`).
-/
namespace Quill

def Token.unplaced (t : Token) : Token := .upTo 1 t.kind t.lexeme .start

@[simp] theorem Token.kind_unplaced (t : Token) : t.unplaced.kind = t.kind := rfl

@[simp] theorem Token.lexeme_unplaced (t : Token) : t.unplaced.lexeme = t.lexeme := rfl

/-- An outcome with the places of its tokens dropped, and those of its value by `drop`. -/
def Outcome.unplaced {α : Type} (drop : α → α) : Outcome α → Outcome α
  | done value rest => .done (drop value) (rest.map Token.unplaced)
  | failed cause rest => .failed cause (rest.map Token.unplaced)

/-- Reading goes on at the same token. -/
theorem Outcome.rest_unplaced {α : Type} (drop : α → α) (outcome : Outcome α) :
    (outcome.unplaced drop).rest = outcome.rest.map Token.unplaced := by
  cases outcome <;> rfl

def Segment.unplaced : Segment → Segment
  | text lexeme => text lexeme
  | marker name _ => marker name .start

namespace Reader

variable {α β : Type} {drop : α → α} {dropNext : β → β} {tokens : List Token}

/-- A reader gives `bare`, when the places of the tokens are dropped, what it gives with them, but
for the places. -/
def Drops (drop : α → α) (reader bare : Reader α) (tokens : List Token) : Prop :=
  bare (tokens.map Token.unplaced) = (reader tokens).unplaced drop

theorem drops_pure (value : α) : Drops drop (pure value) (pure (drop value)) tokens := rfl

/-- Dropping places goes through a bind, if the second reader drops them from whatever the first one
has read. -/
theorem drops_bind {first bare : Reader α} {next bareNext : α → Reader β}
    (hfirst : Drops drop first bare tokens)
    (hnext : ∀ value rest, first tokens = .done value rest →
      Drops dropNext (next value) (bareNext (drop value)) rest) :
    Drops dropNext (first >>= next) (bare >>= bareNext) tokens := by
  unfold Drops at hfirst ⊢
  rw [bind_apply, bind_apply, hfirst]
  cases read : first tokens with
  | done value rest => exact hnext value rest read
  | failed => rfl

/-- The value may be a place itself, as that of an opening bracket, so it is dropped too. -/
theorem drops_token (cause : SyntaxCause) {make? bare? : Token → Option α}
    (h : ∀ t : Token, bare? t.unplaced = (make? t).map drop) :
    Drops drop (token cause make?) (token cause bare?) tokens := by
  cases tokens with
  | nil => rfl
  | cons t more =>
    unfold Drops
    rw [List.map_cons, token, token, h t]
    cases make? t <;> rfl

/-- A reader of one token that does not look at its place, and gives no place. -/
theorem drops_token_id (cause : SyntaxCause) {make? : Token → Option α}
    (h : ∀ t : Token, make? t.unplaced = make? t) :
    Drops id (token cause make?) (token cause make?) tokens :=
  drops_token cause fun t => by rw [Option.map_id, h t, id]

/-- The readers below look at kinds and texts of tokens only. -/
theorem drops_expect (cause : SyntaxCause) (kind : TokenKind) :
    Drops id (expect cause kind) (expect cause kind) tokens :=
  drops_token_id cause fun _ => rfl

theorem drops_identifier (cause : SyntaxCause) :
    Drops id (identifier cause) (identifier cause) tokens :=
  drops_token_id cause fun _ => rfl

theorem drops_typeName (cause : SyntaxCause) :
    Drops id (typeName cause) (typeName cause) tokens :=
  drops_token_id cause fun _ => rfl

theorem drops_front? : Drops id front? front? tokens := by
  cases tokens <;> rfl

theorem drops_skip : Drops id skip skip tokens := by
  cases tokens <;> rfl

/-- The value comes from before the token, with or without its places. -/
theorem drops_close (cause : SyntaxCause) (kind : TokenKind) (value : α) :
    Drops drop (close cause kind value) (close cause kind (drop value)) tokens :=
  drops_bind (drops_expect cause kind) fun _ _ _ => drops_pure value

theorem drops_arraySize : Drops id arraySize arraySize tokens := by
  cases tokens with
  | nil => rfl
  | cons t more =>
    unfold Drops
    rw [List.map_cons, arraySize, arraySize, Token.kind_unplaced, Token.lexeme_unplaced]
    split
    · rfl
    · split <;> rfl

/-- The literal that a token writes does not depend on its place. -/
theorem literal?_unplaced (t : Token) : literal? t.unplaced = literal? t := rfl

/-- The step for operands. Both sides take the same branch, since branches are chosen by kinds. -/
private theorem operand_drops_step
    (ih : ∀ fewer : List Token, fewer.length < tokens.length →
      Drops Expr.unplaced expression expression fewer ∧
        Drops Expr.unplacedAll elements elements fewer) :
    Drops Expr.unplaced operand operand tokens := by
  cases tokens with
  | nil =>
    unfold Drops
    rw [List.map_nil, operand_nil]
    rfl
  | cons t more =>
    obtain ⟨onExpression, onElements⟩ := ih more (by simp)
    unfold Drops
    rw [List.map_cons, operand_eq_cons, operand_eq_cons, literal?_unplaced, Token.kind_unplaced]
    split
    · rfl
    · rfl
    split
    · rfl
    split
    · exact drops_bind onExpression fun inner _ _ => drops_close _ _ inner
    split
    · exact drops_bind onElements fun es _ _ => drops_pure (Expr.array es t.location)
    · rfl

/-- The place of an operator is that of its expression, and it is dropped with it. -/
private theorem afterOperand_drops_step (left : Expr)
    (ih : ∀ fewer : List Token, fewer.length < tokens.length →
      Drops Expr.unplaced expression expression fewer) :
    Drops Expr.unplaced (afterOperand left) (afterOperand left.unplaced) tokens := by
  cases tokens with
  | nil => rfl
  | cons t more =>
    unfold Drops
    rw [List.map_cons, afterOperand, afterOperand, Token.kind_unplaced]
    split
    · rfl
    · next operator _ =>
      exact drops_bind (ih more (by simp)) fun right _ _ =>
        drops_pure (Expr.binary left operator right t.location)

/-- The operand is given at the same tokens, what follows it at fewer. -/
private theorem expression_drops_step (hoperand : Drops Expr.unplaced operand operand tokens)
    (ih : ∀ fewer : List Token, fewer.length < tokens.length →
      Drops Expr.unplaced expression expression fewer) :
    Drops Expr.unplaced expression expression tokens := by
  have same : expression = (operand >>= afterOperand) := funext expression_eq
  have advances := operand_advances tokens
  rw [same]
  refine drops_bind hoperand fun left rest read => ?_
  rw [read] at advances
  exact afterOperand_drops_step left fun fewer h => ih fewer (Nat.lt_trans h advances.2)

private theorem someElements_drops_step
    (hexpression : Drops Expr.unplaced expression expression tokens)
    (ih : ∀ fewer : List Token, fewer.length < tokens.length →
      Drops Expr.unplacedAll someElements someElements fewer) :
    Drops Expr.unplacedAll someElements someElements tokens := by
  have same : someElements = (expression >>= afterElement) := funext someElements_eq
  have advances := expression_advances tokens
  rw [same]
  refine drops_bind hexpression fun first rest read => ?_
  rw [read] at advances
  cases rest with
  | nil => rfl
  | cons t more =>
    have fewer : more.length < tokens.length := Nat.lt_trans (by simp) advances.2
    unfold Drops
    rw [List.map_cons, afterElement, afterElement, Token.kind_unplaced]
    split
    · exact drops_bind (ih more fewer) fun others _ _ => drops_pure (first :: others)
    · split <;> rfl

private theorem elements_drops_step
    (hsome : Drops Expr.unplacedAll someElements someElements tokens) :
    Drops Expr.unplacedAll elements elements tokens := by
  unfold Drops
  rw [elements_eq, elements_eq]
  cases tokens with
  | nil => rfl
  | cons t more =>
    by_cases closing : t.kind = .bracketClose
    · simp [closing, Outcome.unplaced, Expr.unplacedAll]
    · simp only [List.map_cons, Token.kind_unplaced, closing, if_false]
      exact hsome

/-- All four readers together, by the induction of their recursion. -/
private theorem readings_drop (tokens : List Token) :
    Drops Expr.unplaced operand operand tokens ∧ Drops Expr.unplaced expression expression tokens ∧
      Drops Expr.unplacedAll someElements someElements tokens ∧
      Drops Expr.unplacedAll elements elements tokens :=
  reading_induction _ _ _ _ (fun _ => operand_drops_step) (fun _ => expression_drops_step)
    (fun _ => someElements_drops_step) (fun _ => elements_drops_step) tokens

theorem drops_expression : Drops Expr.unplaced expression expression tokens :=
  (readings_drop tokens).2.1

theorem drops_elements : Drops Expr.unplacedAll elements elements tokens :=
  (readings_drop tokens).2.2.2

theorem drops_marker : Drops Segment.unplaced marker marker tokens :=
  drops_bind (drops_token .markerName fun t => by
      rw [Token.kind_unplaced]
      split <;> rfl)
    fun name _ _ => drops_bind (drops_expect _ _) fun _ _ _ =>
      drops_pure (Segment.marker name.lexeme name.location)

/-- By induction on the number of tokens, over the two forms in which pieces are read as a bind. -/
theorem drops_segments :
    Drops (List.map Segment.unplaced) segments segments tokens := by
  induction size : tokens.length using Nat.strongRecOn generalizing tokens with
  | ind n ih =>
    subst size
    cases tokens with
    | nil => rfl
    | cons t more =>
      have onward : ∀ piece bare : Reader Segment, Drops Segment.unplaced piece bare more →
          Sound piece → Drops (List.map Segment.unplaced) (pieceAndMore piece)
            (pieceAndMore bare) more := by
        intro piece bare onPiece sound
        have within := sound more
        refine drops_bind onPiece fun first rest read => ?_
        rw [read] at within
        have fewer : rest.length < (t :: more).length := Nat.lt_succ_of_le within.length_le
        exact drops_bind (ih _ fewer rfl) fun others _ _ => drops_pure (first :: others)
      unfold Drops
      rw [List.map_cons]
      by_cases opening : t.kind = .braceOpen
      · rw [segments_of_open opening, segments_of_open (t := t.unplaced) opening]
        exact onward marker marker drops_marker fun _ => local_marker.within
      by_cases ending : t.kind = .bracketClose ∨ t.kind = .endOfInput
      · rw [segments.eq_def, segments.eq_def]
        rcases ending with kind | kind <;> simp only [kind, Token.kind_unplaced] <;> rfl
      · obtain ⟨notClose, notMark⟩ := not_or.mp ending
        rw [segments_of_text opening notClose notMark,
          segments_of_text (t := t.unplaced) opening notClose notMark]
        exact onward _ _ (drops_pure (Segment.text t.lexeme)) (sound_pure _)

end Reader

/-- Elements are dropped one by one, so in any order of putting them together. -/
theorem Expr.unplacedAll_append (elements more : List Expr) :
    unplacedAll (elements ++ more) = unplacedAll elements ++ unplacedAll more := by
  induction elements with
  | nil => rfl
  | cons e elements ih =>
    rw [List.cons_append, unplacedAll, unplacedAll, ih]
    rfl

def Draft.unplaced (draft : Draft) : Draft :=
  { draft with expressions := Expr.unplacedAll draft.expressions }

/-- The only place in a draft is that of a marker. -/
theorem Draft.add_unplaced (draft : Draft) (piece : Segment) :
    draft.unplaced.add piece.unplaced = (draft.add piece).unplaced := by
  cases piece with
  | text => rfl
  | marker name location =>
    simp only [add, unplaced, Expr.unplacedAll_append]
    rfl

/-- For any draft, as the induction needs it. -/
theorem Draft.foldl_add_unplaced (pieces : List Segment) (draft : Draft) :
    (pieces.map Segment.unplaced).foldl add draft.unplaced = (pieces.foldl add draft).unplaced := by
  induction pieces generalizing draft with
  | nil => rfl
  | cons piece pieces ih => rw [List.map_cons, List.foldl_cons, add_unplaced, ih, List.foldl_cons]

/-- The place of the whole is no part of a draft, so it may be any. -/
theorem Interpolation.ofSegments_unplaced (pieces : List Segment) (location : Location) :
    ofSegments (pieces.map Segment.unplaced) .start = (ofSegments pieces location).unplaced := by
  have same := Draft.foldl_add_unplaced pieces .empty
  have empty : Draft.empty.unplaced = .empty := rfl
  rw [empty] at same
  simp only [ofSegments, same]
  rfl

namespace Reader

variable {tokens : List Token}

/-- The place of a content is looked up in the tokens: the one reader that returns a place which it
did not pass. -/
theorem drops_content : Drops Interpolation.unplaced content content tokens := by
  have front : ((tokens.map Token.unplaced).head?.map (·.location)).getD .start = .start := by
    cases tokens <;> rfl
  have pieces : Drops (List.map Segment.unplaced) segments segments tokens := drops_segments
  unfold Drops at pieces ⊢
  rw [content, pieces, front]
  cases read : segments tokens with
  | done value rest =>
    simp only [Outcome.unplaced, Outcome.andThen_done, content, read]
    rw [← Interpolation.ofSegments_unplaced]
  | failed => simp [content, read, Outcome.unplaced]

/-- Here a place is read, and is the place of the array that is made. -/
theorem drops_arrayLiteral : Drops Expr.unplaced arrayLiteral arrayLiteral tokens := by
  have onOpening : Drops (fun _ => Location.start)
      (token .arrayLiteral fun t => if t.kind = .bracketOpen then some t.location else none)
      (token .arrayLiteral fun t => if t.kind = .bracketOpen then some t.location else none)
      tokens := by
    refine drops_token _ fun t => ?_
    rw [Token.kind_unplaced]
    split <;> rfl
  exact drops_bind onOpening fun location _ _ => drops_bind drops_elements fun es _ _ =>
    drops_pure (Expr.array es location)

theorem drops_scalarDeclaration (name : String) (location : Location) :
    Drops Stmt.unplaced (scalarDeclaration name location) (scalarDeclaration name .start) tokens :=
  drops_bind (drops_typeName _) fun type _ _ => drops_bind (drops_expect _ _) fun _ _ _ =>
    drops_bind drops_expression fun value _ _ => drops_pure (Stmt.scalar name type value location)

theorem drops_valuesDeclaration (name : String) (location : Location) :
    Drops Stmt.unplaced (valuesDeclaration name location) (valuesDeclaration name .start) tokens :=
  drops_bind (drops_expect _ _) fun _ _ _ => drops_bind (drops_expect _ _) fun _ _ _ =>
    drops_bind drops_arrayLiteral fun value _ _ =>
      drops_pure (Stmt.array name (.values value) location)

theorem drops_sizedDeclaration (name : String) (location : Location) :
    Drops Stmt.unplaced (sizedDeclaration name location) (sizedDeclaration name .start) tokens :=
  drops_bind (drops_typeName _) fun type _ _ => drops_bind (drops_expect _ _) fun _ _ _ =>
    drops_bind (drops_expect _ _) fun _ _ _ => drops_bind drops_arraySize fun size _ _ =>
      drops_bind (drops_expect _ _) fun _ _ _ =>
        drops_pure (Stmt.array name (.sized type size) location)

/-- The given place is that of the word `new`, which is no longer there. -/
theorem drops_declaration (location : Location) :
    Drops Stmt.unplaced (declaration location) (declaration .start) tokens := by
  refine drops_bind (drops_identifier _) fun name _ _ => drops_bind drops_front? fun front _ _ => ?_
  rw [id, id]
  split
  · exact drops_bind drops_skip fun _ _ _ => drops_valuesDeclaration name location
  · split
    · exact drops_bind drops_skip fun _ _ _ => drops_sizedDeclaration name location
    · exact drops_scalarDeclaration name location

theorem drops_flagDeclaration (location : Location) :
    Drops Stmt.unplaced (flagDeclaration location) (flagDeclaration .start) tokens :=
  drops_bind (drops_identifier _) fun name _ _ => drops_bind (drops_expect _ _) fun _ _ _ =>
    drops_bind drops_expression fun value _ _ => drops_pure (Stmt.scalar name .bool value location)

theorem drops_output (location : Location) :
    Drops Stmt.unplaced (output location) (output .start) tokens :=
  drops_bind (drops_expect _ _) fun _ _ _ => drops_bind drops_content fun content _ _ =>
    drops_bind (drops_expect _ _) fun _ _ _ => drops_pure (Stmt.output content location)

/-- The place that is handed on is that of the front token. -/
theorem drops_statement : Drops Stmt.unplaced statement statement tokens := by
  cases tokens with
  | nil => rfl
  | cons t more =>
    unfold Drops
    rw [List.map_cons, statement, statement, Token.kind_unplaced]
    split
    · exact drops_declaration t.location
    · exact drops_flagDeclaration t.location
    · exact drops_output t.location
    · rfl

end Reader

def Cursor.unplaced (c : Cursor) : Cursor :=
  ⟨c.all.map Token.unplaced, c.ahead.map Token.unplaced, c.suffix.map Token.unplaced⟩

def SyntaxError.unplaced (error : SyntaxError) : SyntaxError := ⟨error.cause, error.stop.unplaced⟩

def Attempt.unplaced : Attempt → Attempt
  | accepted stmt => accepted stmt.unplaced
  | rejected error => rejected error.unplaced
  | nothing => nothing

namespace Cursor

/-- The end is told by the kind of a token or by there being none. -/
theorem atEnd_unplaced (c : Cursor) : c.unplaced.atEnd = c.atEnd := by
  simp only [atEnd, current?, unplaced]
  cases c.ahead <;> rfl

/-- A cursor is known by its list and what is ahead, so only these are compared. -/
theorem advance_unplaced (c : Cursor) : c.unplaced.advance = c.advance.unplaced :=
  eq_of_ahead rfl List.map_tail.symm

theorem skipComments_unplaced (c : Cursor) :
    c.unplaced.skipComments = c.skipComments.unplaced :=
  eq_of_ahead rfl (List.dropWhile_map ..)

/-- An attempt at tokens without their places. -/
theorem attempt_unplaced (c : Cursor) :
    c.unplaced.attempt = (c.attempt.1.unplaced, c.attempt.2.unplaced) := by
  by_cases ended : c.skipComments.atEnd = true
  · have bareEnded : c.unplaced.skipComments.atEnd = true := by
      rwa [skipComments_unplaced, atEnd_unplaced]
    rw [attempt_of_atEnd ended, attempt_of_atEnd bareEnded, skipComments_unplaced,
      advance_unplaced]
    rfl
  · have bareGoesOn : ¬ c.unplaced.skipComments.atEnd = true := by
      rwa [skipComments_unplaced, atEnd_unplaced]
    obtain ⟨stop, all, left, step⟩ := exists_attempt ended
    obtain ⟨bareStop, bareAll, bareLeft, bareStep⟩ := exists_attempt bareGoesOn
    have read : Reader.statement c.unplaced.skipComments.ahead =
        (Reader.statement c.skipComments.ahead).unplaced Stmt.unplaced := by
      rw [skipComments_unplaced]
      exact Reader.drops_statement
    rw [read] at bareLeft bareStep
    rw [Outcome.rest_unplaced, ← left] at bareLeft
    have same : bareStop = stop.unplaced :=
      eq_of_ahead (bareAll.trans (congrArg (List.map Token.unplaced) all).symm) bareLeft
    rw [bareStep, step, same]
    cases Reader.statement c.skipComments.ahead with
    | done => rfl
    | failed => simp [Outcome.unplaced, Attempt.unplaced, SyntaxError.unplaced, advance_unplaced]

/-- By the recursion of the run, attempt by attempt. -/
theorem attempts_unplaced (c : Cursor) :
    c.unplaced.attempts = c.attempts.map Attempt.unplaced := by
  fun_induction attempts c with
  | case1 c ended =>
    rw [attempts, atEnd_unplaced, if_pos ended]
    rfl
  | case2 c more next ih =>
    rw [attempts, atEnd_unplaced, if_neg more, attempt_unplaced]
    exact congrArg (_ :: ·) ih

end Cursor

/-- Tokens without their places are read as the program without its places, with the same errors
at the same tokens. -/
theorem Parse.ofTokens_unplaced (tokens : List Token) :
    (ofTokens (tokens.map Token.unplaced)).program = (ofTokens tokens).program.unplaced ∧
    (ofTokens (tokens.map Token.unplaced)).errors =
      (ofTokens tokens).errors.map SyntaxError.unplaced := by
  have attempts : (Cursor.start (tokens.map Token.unplaced)).attempts =
      (Cursor.start tokens).attempts.map Attempt.unplaced :=
    (Cursor.start tokens).attempts_unplaced
  have statement : Attempt.statement? ∘ Attempt.unplaced =
      fun attempt => attempt.statement?.map Stmt.unplaced := by
    funext attempt
    cases attempt <;> rfl
  have error : Attempt.error? ∘ Attempt.unplaced =
      fun attempt => attempt.error?.map SyntaxError.unplaced := by
    funext attempt
    cases attempt <;> rfl
  simp only [ofTokens, attempts, Program.ofStatements, Program.unplaced, List.filterMap_map,
    List.map_filterMap, statement, error, and_self]

/-- Dropping the place of the token that an error blames does not change what is said of it. -/
theorem SyntaxError.blamed?_unplaced (error : SyntaxError) :
    error.unplaced.blamed? = error.blamed?.map Token.unplaced := by
  simp only [blamed?, unplaced, Cursor.unplaced, Cursor.currentOrLast?, Cursor.current?,
    List.head?_map, List.getLast?_map, Option.map_or]

/-- A message tells a token by its text. -/
theorem SyntaxError.message_unplaced (error : SyntaxError) :
    error.unplaced.message = error.message := by
  unfold message
  rw [blamed?_unplaced]
  cases error.blamed? <;> rfl

end Quill
