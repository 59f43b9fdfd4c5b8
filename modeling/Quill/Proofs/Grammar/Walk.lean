import Quill.Grammar.Program
import Quill.Proofs.Grammar.Locality

/-!
Reading by an index. Here a phrase is read by a walk through the token list: it holds an index,
which a step moves on by one unless the list has ended, and nothing about a walk says that it moves
on or ends at all. A walk has a number of calls that it may nest, and gives nothing when they are
used up. With enough calls it gives what the reader of the phrase gives, and stops at the index of
the first token that the reader leaves (`Walk.Tracks`).
-/
namespace Quill

/-- A reading from an index of a token list. It gives a value, or what was wanted, and the index
where it stops; or nothing, if it runs out of calls. -/
def Walk (α : Type) := List Token → Nat → Option (Except SyntaxCause α × Nat)

namespace Walk

variable {α β : Type}

/-- All calls are used up. -/
def spent : Walk α := fun _ _ => none

def fail (cause : SyntaxCause) : Walk α := fun _ place => some (.error cause, place)

def andThen (first : Walk α) (next : α → Walk β) : Walk β := fun tokens place =>
  match first tokens place with
  | none => none
  | some (.error cause, stop) => some (.error cause, stop)
  | some (.ok value, stop) => next value tokens stop

instance : Monad Walk where
  pure value _ place := some (.ok value, place)
  bind := andThen

def current? : Walk (Option Token) := fun tokens place => some (.ok tokens[place]?, place)

/-- The index one token on. At the end of the list it stays. -/
def next (tokens : List Token) (place : Nat) : Nat :=
  if place < tokens.length then place + 1 else place

def advance : Walk Unit := fun tokens place => some (.ok (), next tokens place)

/-- Passes the current token if it is of a kind, and tells whether it is. -/
def consume (kind : TokenKind) : Walk Bool := do
  if (← current?).any (·.kind = kind) then
    advance
    pure true
  else pure false

def token (cause : SyntaxCause) (make? : Token → Option α) : Walk α := do
  match (← current?).bind make? with
  | some value => do
    advance
    pure value
  | none => fail cause

def expect (cause : SyntaxCause) (kind : TokenKind) : Walk Unit :=
  token cause fun t => if t.kind = kind then some () else none

/-- Reads the elements of an array behind its opening bracket, with a walk for one or more. -/
def elements (atLeastOne : Walk (List Expr)) : Walk (List Expr) := do
  if ← consume .bracketClose then pure [] else atLeastOne

mutual

def expression : Nat → Walk Expr
  | 0 => spent
  | calls + 1 => do
    let left ← operand calls
    match ← current? with
    | none => pure left
    | some t =>
      match Operator.ofKind? t.kind with
      | none => pure left
      | some operator => do
        advance
        let right ← expression calls
        pure (.binary left operator right t.location)

def operand : Nat → Walk Expr
  | 0 => spent
  | calls + 1 => do
    match ← current? with
    | none => fail .expression
    | some t =>
      match Reader.literal? t with
      | some (.ok value) => do
        advance
        pure (.literal value t.location)
      | some (.error cause) => fail cause
      | none =>
        if t.kind = .identifier then do
          advance
          pure (.identifier t.lexeme t.location)
        else if t.kind = .parenOpen then do
          advance
          let inner ← expression calls
          expect .closeAfterExpression .parenClose
          pure inner
        else if t.kind = .bracketOpen then arrayLiteral calls
        else fail .expression

def arrayLiteral : Nat → Walk Expr
  | 0 => spent
  | calls + 1 => do
    let location ← token .arrayLiteral fun t =>
      if t.kind = .bracketOpen then some t.location else none
    let elements ← elements (someElements calls)
    pure (.array elements location)

def someElements : Nat → Walk (List Expr)
  | 0 => spent
  | calls + 1 => do
    let first ← expression calls
    if ← consume .comma then do
      let more ← someElements calls
      pure (first :: more)
    else do
      expect .closeAfterElements .bracketClose
      pure [first]

end

end Walk

/-- What an outcome is for a walk: the index of the first token that is left comes with it. -/
def Outcome.halt {α : Type} (tokens : List Token) : Outcome α → Except SyntaxCause α × Nat
  | done value rest => (.ok value, tokens.length - rest.length)
  | failed cause rest => (.error cause, tokens.length - rest.length)

theorem Outcome.snd_halt {α : Type} (tokens : List Token) (outcome : Outcome α) :
    (outcome.halt tokens).2 = tokens.length - outcome.rest.length := by
  cases outcome <;> rfl

/-- What a reader leaves is the end of what it is given. -/
theorem Reader.Sound.suffix {α : Type} {reader : Reader α} {tokens rest : List Token} {value : α}
    (h : Sound reader) (read : reader tokens = .done value rest) : rest <:+ tokens := by
  have within := h tokens
  rw [read] at within
  exact within

namespace Walk

variable {α β : Type} {tokens ahead more : List Token} {t : Token}

/-- From the index of the tokens that lie ahead a walk comes to an outcome. -/
def Tracks (tokens ahead : List Token) (walk : Walk α) (outcome : Outcome α) : Prop :=
  walk tokens (tokens.length - ahead.length) = some (outcome.halt tokens)

theorem getElem?_place (within : ahead <:+ tokens) :
    tokens[tokens.length - ahead.length]? = ahead.head? := by
  obtain ⟨behind, rfl⟩ := within
  rw [List.length_append, Nat.add_sub_cancel, List.getElem?_append_right (Nat.le_refl _),
    Nat.sub_self, List.head?_eq_getElem?]

/-- One token on from the front of some tokens is the front of those after it. -/
theorem next_place (within : t :: more <:+ tokens) :
    next tokens (tokens.length - (t :: more).length) = tokens.length - more.length := by
  have fits := within.length_le
  rw [List.length_cons] at fits ⊢
  rw [next, if_pos (by omega)]
  omega

theorem tracks_pure (value : α) : Tracks tokens ahead (pure value) (.done value ahead) := rfl

theorem tracks_fail (cause : SyntaxCause) :
    Tracks tokens ahead (fail cause : Walk α) (.failed cause ahead) := rfl

theorem Tracks.bind {first : Walk α} {outcome : Outcome α} {walk : α → Walk β}
    {on : α → List Token → Outcome β} (h : Tracks tokens ahead first outcome)
    (h' : ∀ value rest, outcome = .done value rest →
      Tracks tokens rest (walk value) (on value rest)) :
    Tracks tokens ahead (first >>= walk) (outcome.andThen on) := by
  show andThen first walk tokens _ = _
  rw [andThen, h]
  cases outcome with
  | done value rest => exact h' value rest rfl
  | failed cause rest => rfl

/-- A walk goes on where one that gives a value has stopped. -/
theorem Tracks.onward {first : Walk α} {value : α} {rest : List Token} {walk : α → Walk β}
    {outcome : Outcome β} (h : Tracks tokens ahead first (.done value rest))
    (h' : Tracks tokens rest (walk value) outcome) :
    Tracks tokens ahead (first >>= walk) outcome := by
  show andThen first walk tokens _ = _
  rw [andThen, h]
  exact h'

/-- A walk that looks at the current token. -/
theorem tracks_current {walk : Option Token → Walk α} {outcome : Outcome α}
    (within : ahead <:+ tokens) (h : Tracks tokens ahead (walk ahead.head?) outcome) :
    Tracks tokens ahead (current? >>= walk) outcome := by
  show walk tokens[tokens.length - ahead.length]? tokens _ = _
  rw [getElem?_place within]
  exact h

/-- A walk that passes the current token. -/
theorem tracks_advance {walk : Unit → Walk α} {outcome : Outcome α}
    (within : t :: more <:+ tokens) (h : Tracks tokens more (walk ()) outcome) :
    Tracks tokens (t :: more) (advance >>= walk) outcome := by
  show walk () tokens (next tokens _) = _
  rw [next_place within]
  exact h

theorem tracks_token (within : ahead <:+ tokens) (cause : SyntaxCause)
    (make? : Token → Option α) :
    Tracks tokens ahead (token cause make?) (Reader.token cause make? ahead) := by
  apply tracks_current within
  cases ahead with
  | nil => exact tracks_fail cause
  | cons t more =>
    simp only [List.head?_cons, Option.bind_some, Reader.token]
    cases make? t with
    | none => exact tracks_fail cause
    | some value => exact tracks_advance within (tracks_pure value)

theorem tracks_expect (within : ahead <:+ tokens) (cause : SyntaxCause) (kind : TokenKind) :
    Tracks tokens ahead (expect cause kind) (Reader.expect cause kind ahead) :=
  tracks_token within cause _

/-- A walk that passes a token of a kind, if there is one. -/
theorem tracks_consume_of_kind {kind : TokenKind} {walk : Bool → Walk α} {outcome : Outcome α}
    (within : t :: more <:+ tokens) (found : t.kind = kind)
    (h : Tracks tokens more (walk true) outcome) :
    Tracks tokens (t :: more) (consume kind >>= walk) outcome := by
  have passed : Tracks tokens (t :: more) (consume kind) (.done true more) := by
    apply tracks_current within
    simp only [List.head?_cons, Option.any_some, found, decide_true, if_true]
    exact tracks_advance within (tracks_pure true)
  exact passed.onward h

theorem tracks_consume_of_other {kind : TokenKind} {walk : Bool → Walk α} {outcome : Outcome α}
    (within : ahead <:+ tokens) (other : ∀ t ∈ ahead.head?, t.kind ≠ kind)
    (h : Tracks tokens ahead (walk false) outcome) :
    Tracks tokens ahead (consume kind >>= walk) outcome := by
  have stays : Tracks tokens ahead (consume kind) (.done false ahead) := by
    apply tracks_current within
    cases ahead with
    | nil => exact tracks_pure false
    | cons t more =>
      have differs : t.kind ≠ kind := other t rfl
      simp only [List.head?_cons, Option.any_some, differs, decide_false]
      exact tracks_pure false
  exact stays.onward h

/-- Four calls for each token that lies ahead, and some more, are enough for a walk to go as a
reader reads. Calls on the same tokens are nested no deeper than that. -/
def Suffices (tokens : List Token) (extra : Nat) (walk : Nat → Walk α) (reader : Reader α)
    (ahead : List Token) : Prop :=
  ahead <:+ tokens → ∀ calls, 4 * ahead.length + extra ≤ calls →
    Tracks tokens ahead (walk calls) (reader ahead)

private theorem array_step
    (h : ∀ fewer : List Token, fewer.length < ahead.length →
      Suffices tokens 4 (fun calls => elements (someElements calls)) Reader.elements fewer) :
    Suffices tokens 1 arrayLiteral Reader.arrayLiteral ahead := by
  intro within calls enough
  cases calls with
  | zero => omega
  | succ calls =>
    rw [arrayLiteral]
    apply (tracks_token within _ _).bind
    intro location rest read
    obtain ⟨t, rfl, -⟩ := Reader.token_eq_done_iff.mp read
    rw [List.length_cons] at enough
    have behind : rest <:+ tokens := (List.suffix_cons t rest).trans within
    apply (h rest (Nat.lt_succ_self _) behind calls (by omega)).bind
    intro es left _
    exact tracks_pure _

private theorem operand_step
    (h : ∀ fewer : List Token, fewer.length < ahead.length →
      Suffices tokens 3 expression Reader.expression fewer ∧
        Suffices tokens 4 (fun calls => elements (someElements calls)) Reader.elements fewer) :
    Suffices tokens 2 operand Reader.operand ahead := by
  intro within calls enough
  cases calls with
  | zero => omega
  | succ calls =>
    rw [operand]
    apply tracks_current within
    cases ahead with
    | nil =>
      rw [Reader.operand_nil]
      exact tracks_fail _
    | cons t more =>
      have behind : more <:+ tokens := (List.suffix_cons t more).trans within
      have fewer : more.length < (t :: more).length := Nat.lt_succ_self _
      by_cases opening : t.kind = .bracketOpen
      · have array := array_step fun fewer shorter => (h fewer shorter).2
        simp only [List.head?_cons, Reader.literal?, opening, if_true, reduceCtorEq, if_false]
        rw [Reader.operand_of_open opening]
        exact array within calls (by omega)
      rw [Reader.operand_eq_cons]
      simp only [List.head?_cons]
      cases Reader.literal? t with
      | some literal =>
        cases literal with
        | ok value => exact tracks_advance within (tracks_pure _)
        | error cause => exact tracks_fail cause
      | none =>
        dsimp only
        by_cases identifier : t.kind = .identifier
        · rw [if_pos identifier, if_pos identifier]
          exact tracks_advance within (tracks_pure _)
        rw [if_neg identifier, if_neg identifier]
        by_cases parens : t.kind = .parenOpen
        · rw [if_pos parens, if_pos parens]
          rw [List.length_cons] at enough
          apply tracks_advance within
          apply ((h more fewer).1 behind calls (by omega)).bind
          intro inner rest read
          have left := Reader.sound_expression.suffix read
          exact (tracks_expect (left.trans behind) _ _).bind fun _ _ _ => tracks_pure inner
        · rw [if_neg parens, if_neg parens, if_neg opening, if_neg opening]
          exact tracks_fail _

private theorem expression_step (hoperand : Suffices tokens 2 operand Reader.operand ahead)
    (h : ∀ fewer : List Token, fewer.length < ahead.length →
      Suffices tokens 3 expression Reader.expression fewer) :
    Suffices tokens 3 expression Reader.expression ahead := by
  intro within calls enough
  cases calls with
  | zero => omega
  | succ calls =>
    rw [expression, Reader.expression_eq]
    apply (hoperand within calls (by omega)).bind
    intro left rest read
    have advances := Reader.operand_advances ahead
    rw [read] at advances
    have inside : rest <:+ tokens := advances.1.trans within
    apply tracks_current inside
    cases rest with
    | nil => exact tracks_pure left
    | cons t more =>
      have behind : more <:+ tokens := (List.suffix_cons t more).trans inside
      have shorter : more.length < ahead.length := Nat.lt_of_succ_lt advances.2
      simp only [List.head?_cons, Reader.afterOperand]
      cases Operator.ofKind? t.kind with
      | none => exact tracks_pure left
      | some operator =>
        apply tracks_advance inside
        exact (h more shorter behind calls (by omega)).bind fun right rest _ => tracks_pure _

private theorem someElements_step
    (hexpression : Suffices tokens 3 expression Reader.expression ahead)
    (h : ∀ fewer : List Token, fewer.length < ahead.length →
      Suffices tokens 4 someElements Reader.someElements fewer) :
    Suffices tokens 4 someElements Reader.someElements ahead := by
  intro within calls enough
  cases calls with
  | zero => omega
  | succ calls =>
    rw [someElements, Reader.someElements_eq]
    apply (hexpression within calls (by omega)).bind
    intro first rest read
    have advances := Reader.expression_advances ahead
    rw [read] at advances
    have inside : rest <:+ tokens := advances.1.trans within
    cases rest with
    | nil =>
      apply tracks_consume_of_other inside (by simp)
      exact (tracks_expect inside _ _).bind fun _ _ _ => tracks_pure [first]
    | cons t more =>
      have behind : more <:+ tokens := (List.suffix_cons t more).trans inside
      have shorter : more.length < ahead.length := Nat.lt_of_succ_lt advances.2
      rw [Reader.afterElement]
      by_cases comma : t.kind = .comma
      · rw [if_pos comma]
        apply tracks_consume_of_kind inside comma
        exact (h more shorter behind calls (by omega)).bind fun others _ _ => tracks_pure _
      · have closes : (if t.kind = .bracketClose then Outcome.done [first] more
            else .failed .closeAfterElements (t :: more)) =
            Reader.close .closeAfterElements .bracketClose [first] (t :: more) := by
          by_cases closing : t.kind = .bracketClose <;>
            simp [Reader.close, Reader.expect, Reader.token, closing] <;> rfl
        rw [if_neg comma, closes]
        apply tracks_consume_of_other inside (by simpa using comma)
        exact (tracks_expect inside _ _).bind fun _ _ _ => tracks_pure [first]

private theorem elements_step (hsome : Suffices tokens 4 someElements Reader.someElements ahead) :
    Suffices tokens 4 (fun calls => elements (someElements calls)) Reader.elements ahead := by
  intro within calls enough
  rw [Reader.elements_eq]
  cases ahead with
  | nil =>
    have atEnd : Reader.someElements [] = .failed .expression [] := by
      rw [Reader.someElements_eq, Reader.expression_eq, Reader.operand_nil]
      rfl
    rw [← atEnd]
    exact tracks_consume_of_other within (by simp) (hsome within calls enough)
  | cons t more =>
    dsimp only
    by_cases closing : t.kind = .bracketClose
    · rw [if_pos closing]
      exact tracks_consume_of_kind within closing (tracks_pure [])
    · rw [if_neg closing]
      exact tracks_consume_of_other within (by simpa using closing) (hsome within calls enough)

private theorem readings_suffice (tokens ahead : List Token) :
    Suffices tokens 2 operand Reader.operand ahead ∧
      Suffices tokens 3 expression Reader.expression ahead ∧
      Suffices tokens 4 someElements Reader.someElements ahead ∧
      Suffices tokens 4 (fun calls => elements (someElements calls)) Reader.elements ahead :=
  Reader.reading_induction _ _ _ _ (fun _ => operand_step) (fun _ => expression_step)
    (fun _ => someElements_step) (fun _ => elements_step) ahead

theorem operand_suffices (tokens ahead : List Token) :
    Suffices tokens 2 operand Reader.operand ahead :=
  (readings_suffice tokens ahead).1

theorem expression_suffices (tokens ahead : List Token) :
    Suffices tokens 3 expression Reader.expression ahead :=
  (readings_suffice tokens ahead).2.1

theorem arrayLiteral_suffices (tokens ahead : List Token) :
    Suffices tokens 1 arrayLiteral Reader.arrayLiteral ahead :=
  array_step fun fewer _ => (readings_suffice tokens fewer).2.2.2

end Walk

end Quill
