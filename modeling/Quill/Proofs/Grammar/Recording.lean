import Quill.Compilation
import Quill.Proofs.Grammar.Attempt
import Quill.Proofs.Report.Recording

/-!
The reading of a token list with a sink at hand: each error is recorded where a reader fails, before
the statement is given up. It gives the program of `Sink.parse` and records the same
(`Recording.parse_eq`).
-/
namespace Quill.Recording

variable {α β : Type}

/-- The diagnostic about a token list that goes on with `rest` where a reader fails. -/
def complaint (all rest : List Token) (cause : SyntaxCause) : Diagnostic :=
  match rest.head?.or all.getLast? with
  | some token =>
    (Diagnostic.pointing .syntactic (cause.message ++ ", found " ++ token.described)
      cause.suggestion token.location).upTo token.endColumn
  | none => .pointing .syntactic cause.message cause.suggestion .start

/-- A complaint is made of the tokens at hand, an error of a cursor; both blame the token ahead, or
the last one of the list. -/
theorem diagnostic_eq_complaint (cause : SyntaxCause) (stop : Cursor) :
    SyntaxError.diagnostic ⟨cause, stop⟩ = complaint stop.all stop.ahead cause := by
  have blamed : SyntaxError.blamed? ⟨cause, stop⟩ = stop.ahead.head?.or stop.all.getLast? := rfl
  unfold complaint SyntaxError.diagnostic SyntaxError.message
  rw [blamed]
  cases stop.ahead.head?.or stop.all.getLast? <;> rfl

/-- What an outcome has been recorded with. -/
def complaints (all : List Token) : Outcome α → List Diagnostic
  | .done .. => []
  | .failed cause rest => [complaint all rest cause]

def fail (all : List Token) (cause : SyntaxCause) (rest : List Token) :
    Recording (Outcome α) := do
  record (complaint all rest cause)
  pure (.failed cause rest)

/-- Gives up at the front token. -/
def failStep (all : List Token) (cause : SyntaxCause) : Recording (Advance α tokens) := do
  record (complaint all tokens cause)
  pure (.failed cause)

def chain (first : Recording (Advance α tokens))
    (next : α → (rest : List Token) → rest.length < tokens.length →
      Recording { o : Outcome β // o.Within rest }) : Recording (Advance β tokens) := do
  match ← first with
  | ⟨.failed cause rest, h⟩ => pure ⟨.failed cause rest, h⟩
  | ⟨.done value rest, h⟩ =>
    let later ← next value rest h.fewer
    pure ⟨later.val, h.onward later.property⟩

/-- The computation gives an outcome that carries a proof, and records its error. -/
def Settles (all : List Token) {P : Outcome α → Prop} (run : Recording { o : Outcome α // P o })
    (outcome : { o : Outcome α // P o }) : Prop :=
  Gives run outcome (complaints all outcome.val)

variable {all tokens : List Token}

/-- Failing is what is recorded, once and where it happens. -/
theorem settles_failStep (cause : SyntaxCause) :
    Settles all (failStep all cause : Recording (Advance α tokens)) (Advance.failed cause) :=
  (gives_record _).bind_pure fun _ => Advance.failed cause

/-- A chain records what the part that fails records. A first part that is read has recorded
nothing, and after one that fails the second part does not run. -/
theorem Settles.chain {first : Recording (Advance α tokens)} {step : Advance α tokens}
    {next : α → (rest : List Token) → rest.length < tokens.length →
      Recording { o : Outcome β // o.Within rest }}
    {plain : α → (rest : List Token) → rest.length < tokens.length →
      { o : Outcome β // o.Within rest }}
    (h : Settles all first step)
    (h' : ∀ value rest fewer, Settles all (next value rest fewer) (plain value rest fewer)) :
    Settles all (chain first next) (step.andThen plain) := by
  obtain ⟨outcome, advances⟩ := step
  cases outcome with
  | done value rest =>
    have later := (h' value rest advances.fewer).bind_pure fun later =>
      (⟨later.val, advances.onward later.property⟩ : Advance β tokens)
    exact Gives.bind_silent h later
  | failed cause rest => exact Gives.bind h (gives_pure _)

theorem settles_pure {P : Outcome α → Prop} {value : α} {rest : List Token}
    (h : P (.done value rest)) : Settles all (pure ⟨.done value rest, h⟩) ⟨.done value rest, h⟩ :=
  gives_pure _

/-- Passing a token changes the proof that an outcome carries, and not the outcome. -/
theorem Settles.afterToken {step : Advance α tokens} {run : Recording (Advance α tokens)}
    (h : Settles all run step) {t : Token} :
    Settles all (Advance.afterToken (t := t) <$> run) step.afterToken :=
  Gives.map h _

theorem Settles.onward {step : Advance α tokens} {run : Recording (Advance α tokens)}
    (h : Settles all run step) {t : Token} :
    Settles all (Advance.onward (t := t) <$> run) step.onward :=
  Gives.map h _

def close (all : List Token) (cause : SyntaxCause) (kind : TokenKind) (value : α)
    (tokens : List Token) : Recording { o : Outcome α // o.Within tokens } :=
  match tokens with
  | [] => do
    record (complaint all [] cause)
    pure ⟨.failed cause [], List.suffix_refl _⟩
  | t :: rest =>
    if t.kind = kind then pure ⟨.done value rest, List.suffix_cons ..⟩
    else do
      record (complaint all (t :: rest) cause)
      pure ⟨.failed cause (t :: rest), List.suffix_refl _⟩

-- As without a sink at hand, but that errors are recorded: each reader calls the others on fewer
-- tokens, or on the same ones in the order of their measures.
mutual

def expressionStep (all tokens : List Token) : Recording (Advance Expr tokens) :=
  chain (operandStep all tokens) fun left rest fewer =>
    match rest, fewer with
    | [], _ => pure ⟨.done left [], List.suffix_refl _⟩
    | t :: rest, _ =>
      match Operator.ofKind? t.kind with
      | none => pure ⟨.done left (t :: rest), List.suffix_refl _⟩
      | some operator =>
        Advance.onward <$> chain (expressionStep all rest) fun right rest _ =>
          pure ⟨.done (.binary left operator right t.location) rest, List.suffix_refl _⟩
termination_by 4 * tokens.length + 1
decreasing_by
  · omega
  · next fewer => simp only [List.length_cons] at fewer; omega

def operandStep (all tokens : List Token) : Recording (Advance Expr tokens) :=
  match tokens with
  | [] => failStep all .expression
  | t :: rest =>
    match Reader.literal? t with
    | some (.ok value) => pure (.one (.literal value t.location))
    | some (.error cause) => failStep all cause
    | none =>
      if t.kind = .identifier then pure (.one (.identifier t.lexeme t.location))
      else if t.kind = .parenOpen then
        Advance.afterToken <$> chain (expressionStep all rest) fun inner rest _ =>
          close all .closeAfterExpression .parenClose inner rest
      else if t.kind = .bracketOpen then
        Advance.afterToken <$> chain (elementsStep all rest) fun elements rest _ =>
          pure ⟨.done (.array elements t.location) rest, List.suffix_refl _⟩
      else failStep all .expression
termination_by 4 * tokens.length
decreasing_by all_goals simp only [List.length_cons]; omega

def elementsStep (all tokens : List Token) : Recording (Advance (List Expr) tokens) :=
  match tokens with
  | [] => failStep all .expression
  | t :: rest =>
    if t.kind = .bracketClose then pure (.one [])
    else someElementsStep all (t :: rest)
termination_by 4 * tokens.length + 3
decreasing_by all_goals simp only [List.length_cons]; omega

def someElementsStep (all tokens : List Token) : Recording (Advance (List Expr) tokens) :=
  chain (expressionStep all tokens) fun first rest fewer =>
    match rest, fewer with
    | [], _ => do
      record (complaint all [] .closeAfterElements)
      pure ⟨.failed .closeAfterElements [], List.suffix_refl _⟩
    | t :: rest, _ =>
      if t.kind = .comma then
        Advance.onward <$> chain (someElementsStep all rest) fun more rest _ =>
          pure ⟨.done (first :: more) rest, List.suffix_refl _⟩
      else if t.kind = .bracketClose then pure ⟨.done [first] rest, List.suffix_cons ..⟩
      else do
        record (complaint all (t :: rest) .closeAfterElements)
        pure ⟨.failed .closeAfterElements (t :: rest), List.suffix_refl _⟩
termination_by 4 * tokens.length + 2
decreasing_by
  · omega
  · next fewer _ => simp only [List.length_cons] at fewer; omega

end

/-- The reader without a sink is a bind and this one is a match, so the cases are those of the
token. -/
theorem settles_close (all : List Token) (cause : SyntaxCause) (kind : TokenKind) (value : α)
    (tokens : List Token) :
    Settles all (close all cause kind value tokens)
      ⟨Reader.close cause kind value tokens, Reader.sound_close _ _ _ tokens⟩ := by
  cases tokens with
  | nil => exact (gives_record _).bind_pure _
  | cons t rest =>
    by_cases found : t.kind = kind
    · have read : Reader.close cause kind value (t :: rest) = .done value rest :=
        Reader.close_eq_done_iff.mpr ⟨⟨t, rfl, found⟩, rfl⟩
      simp only [close, if_pos found, read]
      exact settles_pure _
    · have missed : Reader.close cause kind value (t :: rest) = .failed cause (t :: rest) := by
        simp [Reader.close, Reader.expect, Reader.token, found]
        rfl
      simp only [close, if_neg found, missed]
      exact (gives_record _).bind_pure _

mutual

/-- The recursion is that of the readers, with the same measures: at each call the outcome and its
proof are compared together, since the readers return both. -/
theorem settles_expressionStep (all tokens : List Token) :
    Settles all (expressionStep all tokens) (Reader.expressionStep tokens) := by
  rw [expressionStep, Reader.expressionStep]
  refine (settles_operandStep all tokens).chain fun left rest fewer => ?_
  cases rest with
  | nil => exact settles_pure _
  | cons t rest =>
    have shorter : rest.length < tokens.length := Nat.lt_of_succ_lt fewer
    dsimp only
    cases Operator.ofKind? t.kind with
    | none => exact settles_pure _
    | some operator =>
      exact ((settles_expressionStep all rest).chain fun _ _ _ => settles_pure _).onward
termination_by 4 * tokens.length + 1
decreasing_by all_goals omega

theorem settles_operandStep (all tokens : List Token) :
    Settles all (operandStep all tokens) (Reader.operandStep tokens) := by
  cases tokens with
  | nil =>
    rw [operandStep, Reader.operandStep]
    exact settles_failStep _
  | cons t rest =>
    rw [operandStep, Reader.operandStep]
    cases Reader.literal? t with
    | some literal =>
      cases literal with
      | ok => exact settles_pure _
      | error => exact settles_failStep _
    | none =>
      dsimp only
      split
      · exact settles_pure _
      split
      · exact ((settles_expressionStep all rest).chain fun inner tokens _ =>
          settles_close all _ _ inner tokens).afterToken
      split
      · exact ((settles_elementsStep all rest).chain fun _ _ _ => settles_pure _).afterToken
      · exact settles_failStep _
termination_by 4 * tokens.length
decreasing_by all_goals simp only [List.length_cons]; omega

theorem settles_elementsStep (all tokens : List Token) :
    Settles all (elementsStep all tokens) (Reader.elementsStep tokens) := by
  rw [elementsStep.eq_def, Reader.elementsStep.eq_def]
  cases tokens with
  | nil => exact settles_failStep _
  | cons t rest =>
    dsimp only
    split
    · exact settles_pure _
    · exact settles_someElementsStep all (t :: rest)
termination_by 4 * tokens.length + 3
decreasing_by all_goals simp only [List.length_cons]; omega

theorem settles_someElementsStep (all tokens : List Token) :
    Settles all (someElementsStep all tokens) (Reader.someElementsStep tokens) := by
  rw [someElementsStep, Reader.someElementsStep]
  refine (settles_expressionStep all tokens).chain fun first rest fewer => ?_
  cases rest with
  | nil => exact (gives_record _).bind_pure _
  | cons t rest =>
    have shorter : rest.length < tokens.length := Nat.lt_of_succ_lt fewer
    dsimp only
    split
    · exact ((settles_someElementsStep all rest).chain fun _ _ _ => settles_pure _).onward
    split
    · exact settles_pure _
    · exact (gives_record _).bind_pure _
termination_by 4 * tokens.length + 2
decreasing_by all_goals omega

end

/-- Takes a phrase off the front of a token list, and records an error where that fails. -/
def Recorder (α : Type) := List Token → Recording (Outcome α)

namespace Recorder

/-- A reader that fails at once if it fails at all, in a list of which all tokens are `all`. -/
def ofReader (all : List Token) (reader : Reader α) : Recorder α := fun tokens =>
  match reader tokens with
  | .done value rest => pure (.done value rest)
  | .failed cause rest => fail all cause rest

def thenRead (first : Recording (Outcome α)) (next : α → Recorder β) : Recording (Outcome β) := do
  match ← first with
  | .done value rest => next value rest
  | .failed cause rest => pure (.failed cause rest)

instance : Monad Recorder where
  pure value tokens := pure (.done value tokens)
  bind first next tokens := thenRead (first tokens) next

/-- The recorder reads what the reader reads, and records its errors. -/
def Follows (all : List Token) (recorder : Recorder α) (reader : Reader α) : Prop :=
  ∀ tokens, Gives (recorder tokens) (reader tokens) (complaints all (reader tokens))

theorem follows_pure (value : α) : Follows all (pure value) (pure value) := fun _ => gives_pure _

theorem gives_fail (cause : SyntaxCause) (rest : List Token) :
    Gives (fail all cause rest : Recording (Outcome α)) (.failed cause rest)
      (complaints all (.failed cause rest : Outcome α)) :=
  (gives_record _).bind_pure _

/-- A reader of one token fails before it has called another, so its error can be recorded from the
outside. -/
theorem follows_ofReader (reader : Reader α) : Follows all (ofReader all reader) reader := by
  intro tokens
  unfold ofReader
  cases reader tokens with
  | done => exact gives_pure _
  | failed => exact gives_fail _ _

/-- For the matches of `segments` that are no binds of the monad. -/
theorem gives_thenRead {first : Recording (Outcome α)} {outcome : Outcome α}
    {next : α → Recorder β} {on : α → Reader β} (h : Gives first outcome (complaints all outcome))
    (h' : ∀ value, Follows all (next value) (on value)) :
    Gives (thenRead first next) (outcome.andThen on) (complaints all (outcome.andThen on)) := by
  cases outcome with
  | done value rest => exact Gives.bind_silent h (h' value rest)
  | failed cause rest => exact Gives.bind h (gives_pure _)

/-- What follows reader by reader follows for a bind of them. The rest are one line each by this. -/
theorem Follows.bind {recorder : Recorder α} {reader : Reader α} {next : α → Recorder β}
    {on : α → Reader β} (h : Follows all recorder reader)
    (h' : ∀ value, Follows all (next value) (on value)) :
    Follows all (recorder >>= next) (reader >>= on) := fun tokens => gives_thenRead (h tokens) h'

end Recorder

open Recorder

def expression (all : List Token) : Recorder Expr := fun tokens =>
  Subtype.val <$> expressionStep all tokens

/-- From here on the proofs that outcomes carry are dropped. -/
theorem follows_expression : Follows all (expression all) Reader.expression := fun tokens =>
  (settles_expressionStep all tokens).map Subtype.val

def arrayLiteral (all : List Token) : Recorder Expr := do
  let location ← ofReader all <| Reader.token .arrayLiteral fun t =>
    if t.kind = .bracketOpen then some t.location else none
  let elements ← fun tokens => Subtype.val <$> elementsStep all tokens
  pure (.array elements location)

theorem follows_arrayLiteral : Follows all (arrayLiteral all) Reader.arrayLiteral :=
  (follows_ofReader _).bind fun _ =>
    Follows.bind (fun tokens => (settles_elementsStep all tokens).map Subtype.val)
      fun _ => follows_pure _

def scalarDeclaration (all : List Token) (name : String) (location : Location) :
    Recorder Stmt := do
  let type ← ofReader all (Reader.typeName .typeAfterName)
  ofReader all (Reader.expect .valueAfterType .assign)
  let value ← expression all
  pure (.scalar name type value location)

def valuesDeclaration (all : List Token) (name : String) (location : Location) :
    Recorder Stmt := do
  ofReader all (Reader.expect .closeAfterOpen .bracketClose)
  ofReader all (Reader.expect .valueAfterArray .assign)
  let value ← arrayLiteral all
  pure (.array name (.values value) location)

def sizedDeclaration (all : List Token) (name : String) (location : Location) :
    Recorder Stmt := do
  let type ← ofReader all (Reader.typeName .elementType)
  ofReader all (Reader.expect .closeAfterElementType .braceClose)
  ofReader all (Reader.expect .openAfterElementType .bracketOpen)
  let size ← ofReader all Reader.arraySize
  ofReader all (Reader.expect .closeAfterSize .bracketClose)
  pure (.array name (.sized type size) location)

def declaration (all : List Token) (location : Location) : Recorder Stmt := do
  let name ← ofReader all (Reader.identifier .nameAfterNew)
  let front ← ofReader all Reader.front?
  if front = some .bracketOpen then
    ofReader all Reader.skip
    valuesDeclaration all name location
  else if front = some .braceOpen then
    ofReader all Reader.skip
    sizedDeclaration all name location
  else scalarDeclaration all name location

def flagDeclaration (all : List Token) (location : Location) : Recorder Stmt := do
  let name ← ofReader all (Reader.identifier .nameAfterBl)
  ofReader all (Reader.expect .valueAfterName .assign)
  let value ← expression all
  pure (.scalar name .bool value location)

/-- Reads pieces up to a closing bracket or the end, which is left. -/
def segments (all : List Token) : Recorder (List Segment)
  | [] => pure (.done [] [])
  | t :: rest =>
    match t.kind with
    | .bracketClose | .endOfInput => pure (.done [] (t :: rest))
    | .braceOpen =>
      match rest with
      | [] => fail all .markerName []
      | name :: rest =>
        if name.kind ≠ .identifier then fail all .markerName (name :: rest)
        else
          match rest with
          | [] => fail all .closeAfterMarkerName []
          | close :: rest =>
            if close.kind ≠ .braceClose then fail all .closeAfterMarkerName (close :: rest)
            else
              thenRead (segments all rest) fun more tokens =>
                pure (.done (.marker name.lexeme name.location :: more) tokens)
    | _ =>
      thenRead (segments all rest) fun more tokens =>
        pure (.done (.text t.lexeme :: more) tokens)

def content (all : List Token) : Recorder Interpolation := fun tokens =>
  thenRead (segments all tokens) fun pieces rest =>
    pure (.done (.ofSegments pieces ((tokens.head?.map (·.location)).getD .start)) rest)

def output (all : List Token) (location : Location) : Recorder Stmt := do
  ofReader all (Reader.expect .openAfterStdout .bracketOpen)
  let content ← content all
  ofReader all (Reader.expect .closeAfterContent .bracketClose)
  pure (.output content location)

def statement (all : List Token) : Recorder Stmt
  | [] => fail all .statement []
  | t :: rest =>
    match t.kind with
    | .new => declaration all t.location rest
    | .bl => flagDeclaration all t.location rest
    | .stdout => output all t.location rest
    | _ => fail all .statement (t :: rest)

theorem follows_scalarDeclaration (name : String) (location : Location) :
    Follows all (scalarDeclaration all name location) (Reader.scalarDeclaration name location) :=
  (follows_ofReader _).bind fun _ => (follows_ofReader _).bind fun _ =>
    follows_expression.bind fun _ => follows_pure _

theorem follows_valuesDeclaration (name : String) (location : Location) :
    Follows all (valuesDeclaration all name location) (Reader.valuesDeclaration name location) :=
  (follows_ofReader _).bind fun _ => (follows_ofReader _).bind fun _ =>
    follows_arrayLiteral.bind fun _ => follows_pure _

theorem follows_sizedDeclaration (name : String) (location : Location) :
    Follows all (sizedDeclaration all name location) (Reader.sizedDeclaration name location) :=
  (follows_ofReader _).bind fun _ => (follows_ofReader _).bind fun _ =>
    (follows_ofReader _).bind fun _ => (follows_ofReader _).bind fun _ =>
      (follows_ofReader _).bind fun _ => follows_pure _

theorem follows_declaration (location : Location) :
    Follows all (declaration all location) (Reader.declaration location) := by
  refine (follows_ofReader _).bind fun name => (follows_ofReader _).bind fun front => ?_
  split
  · exact (follows_ofReader _).bind fun _ => follows_valuesDeclaration name location
  split
  · exact (follows_ofReader _).bind fun _ => follows_sizedDeclaration name location
  · exact follows_scalarDeclaration name location

theorem follows_flagDeclaration (location : Location) :
    Follows all (flagDeclaration all location) (Reader.flagDeclaration location) :=
  (follows_ofReader _).bind fun _ => (follows_ofReader _).bind fun _ =>
    follows_expression.bind fun _ => follows_pure _

/-- By the cases of the reader without a sink. A marker that is not closed fails in the middle of a
piece, so none of the lemmas for binds applies. -/
theorem follows_segments : Follows all (segments all) Reader.segments := by
  intro tokens
  fun_induction Reader.segments tokens with
  | case1 => exact gives_pure _
  | case2 t rest kind =>
    unfold segments
    simp only [kind]
    exact gives_pure _
  | case3 t rest kind =>
    unfold segments
    simp only [kind]
    exact gives_pure _
  | case4 t kind =>
    unfold segments
    simp only [kind]
    exact gives_fail _ _
  | case5 t kind name rest other =>
    unfold segments
    simp only [kind, if_pos other]
    exact gives_fail _ _
  | case6 t kind name isName =>
    unfold segments
    simp only [kind, if_neg isName]
    exact gives_fail _ _
  | case7 t kind name isName mark rest other =>
    unfold segments
    simp only [kind, if_neg isName, if_pos other]
    exact gives_fail _ _
  | case8 t kind name isName mark rest isMark ih =>
    unfold segments
    simp only [kind, if_neg isName, if_neg isMark]
    exact gives_thenRead ih fun _ => follows_pure _
  | case9 t rest notClose notEnd notOpen ih =>
    unfold segments
    split
    · next kind => exact (notClose kind).elim
    · next kind => exact (notEnd kind).elim
    · next kind => exact (notOpen kind).elim
    · exact gives_thenRead ih fun _ => follows_pure _

theorem follows_content : Follows all (content all) Reader.content := fun tokens =>
  gives_thenRead (follows_segments tokens) fun _ => follows_pure _

theorem follows_output (location : Location) :
    Follows all (output all location) (Reader.output location) :=
  (follows_ofReader _).bind fun _ => follows_content.bind fun _ =>
    (follows_ofReader _).bind fun _ => follows_pure _

/-- The front token decides which reader goes on, the same one on both sides. -/
theorem follows_statement : Follows all (statement all) Reader.statement := by
  intro tokens
  fun_cases Reader.statement tokens with
  | case1 => exact gives_fail _ _
  | case2 t rest kind =>
    simp only [statement, kind]
    exact follows_declaration _ rest
  | case3 t rest kind =>
    simp only [statement, kind]
    exact follows_flagDeclaration _ rest
  | case4 t rest kind =>
    simp only [statement, kind]
    exact follows_output _ rest
  | case5 t rest notNew notBl notStdout =>
    have other : statement all (t :: rest) = fail all .statement (t :: rest) := by
      simp only [statement]
    rw [other]
    exact gives_fail _ _

/-- What is left is part of what was given, as a cursor needs it, whatever the sink holds. -/
theorem within_statement (all tokens : List Token) (sink : Sink) :
    (statement all tokens sink).1.Within tokens := by
  rw [follows_statement tokens sink]
  exact (Reader.statement_advances tokens).within

def attempt (c : Cursor) (sink : Sink) : (Option Stmt × Cursor) × Sink :=
  let first := c.skipComments
  if first.atEnd then ((none, first.advance), sink)
  else
    let read := statement c.all first.ahead sink
    let stop := first.moveTo read.1.rest (within_statement c.all first.ahead sink)
    match read.1 with
    | .done stmt _ => ((some stmt, stop), read.2)
    | .failed .. => ((none, stop.advance), read.2)

variable {c : Cursor}

/-- An attempt with the place where it stops, in the form that attempts without a sink have. -/
theorem exists_attempt (h : ¬ c.skipComments.atEnd = true) (sink : Sink) :
    ∃ stop : Cursor, stop.all = c.all ∧
      stop.ahead = (statement c.all c.skipComments.ahead sink).1.rest ∧
      attempt c sink = match (statement c.all c.skipComments.ahead sink).1 with
        | .done stmt _ => ((some stmt, stop), (statement c.all c.skipComments.ahead sink).2)
        | .failed .. => ((none, stop.advance), (statement c.all c.skipComments.ahead sink).2) :=
  ⟨c.skipComments.moveTo _ (within_statement c.all c.skipComments.ahead sink), rfl, rfl, if_neg h⟩

/-- An attempt records the error that it is rejected with. -/
theorem gives_attempt (c : Cursor) :
    Gives (attempt c) (c.attempt.1.statement?, c.attempt.2)
      (c.attempt.1.error?.toList.map SyntaxError.diagnostic) := by
  intro sink
  by_cases ended : c.skipComments.atEnd = true
  · rw [Cursor.attempt_of_atEnd ended, attempt, if_pos ended]
    exact gives_pure _ sink
  · obtain ⟨stop, all, left, step⟩ := Cursor.exists_attempt ended
    obtain ⟨halt, haltAll, haltLeft, recorded⟩ := exists_attempt ended sink
    rw [follows_statement c.skipComments.ahead sink] at haltLeft recorded
    -- A cursor is known by its list and what is ahead, so both attempts stop at one place.
    have same : halt = stop :=
      Cursor.eq_of_ahead (haltAll.trans all.symm) (haltLeft.trans left.symm)
    rw [recorded, step, same]
    cases outcome : Reader.statement c.skipComments.ahead with
    | done stmt rest => rfl
    | failed cause rest =>
      rw [outcome] at left
      have complains : complaint c.all rest cause = SyntaxError.diagnostic ⟨cause, stop⟩ := by
        rw [diagnostic_eq_complaint, all, left]
        rfl
      simp only [complaints, complains]
      rfl

/-- Attempts one statement after the other, up to an end mark or the end of the list. -/
def statements (c : Cursor) (sink : Sink) : List Stmt × Sink :=
  if c.atEnd then ([], sink)
  else
    let step := attempt c sink
    let more := statements step.1.2 step.2
    (step.1.1.toList ++ more.1, more.2)
termination_by c.ahead.length
decreasing_by
  next more =>
    rw [gives_attempt c sink]
    exact Cursor.attempt_advances c (Bool.eq_false_iff.mpr more)

/-- The statements and the records of a run come in the order of the attempts. -/
theorem gives_statements (c : Cursor) :
    Gives (statements c) (c.attempts.filterMap Attempt.statement?)
      ((c.attempts.filterMap Attempt.error?).map SyntaxError.diagnostic) := by
  fun_induction Cursor.attempts c with
  | case1 c ended =>
    intro sink
    rw [statements, if_pos ended]
    exact gives_pure _ sink
  | case2 c more step ih =>
    intro sink
    rw [statements, if_neg more]
    dsimp only
    rw [gives_attempt c sink, ih, ← Sink.pushAll_append]
    rw [List.filterMap_cons, List.filterMap_cons]
    cases c.attempt.1 <;> rfl

/-- Reads the program of a token list and records each error where a reader fails. -/
def parse (tokens : List Token) : Recording Program :=
  Program.ofStatements <$> statements (.start tokens)

/-- That is the reading of a token list. -/
theorem parse_eq (tokens : List Token) (sink : Sink) : parse tokens sink = sink.parse tokens :=
  (gives_statements (.start tokens)).map Program.ofStatements sink

end Quill.Recording
