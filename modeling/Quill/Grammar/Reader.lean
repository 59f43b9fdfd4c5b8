import Quill.Grammar.Error

/-!
Readers: functions that take a phrase off the front of a token list. A reader that fails leaves the
token that does not fit at the front of what it gives back.
-/
namespace Quill

/-- What reading a phrase gives: its value and the tokens after it, or what was wanted and the
tokens from the first one that does not fit. -/
inductive Outcome (α : Type) where
  | done (value : α) (rest : List Token)
  | failed (cause : SyntaxCause) (rest : List Token)
  deriving Repr

namespace Outcome

def rest : Outcome α → List Token
  | done _ rest => rest
  | failed _ rest => rest

def andThen (first : Outcome α) (next : α → List Token → Outcome β) : Outcome β :=
  match first with
  | done value rest => next value rest
  | failed cause rest => .failed cause rest

@[simp] theorem andThen_done (value : α) (rest : List Token) (next : α → List Token → Outcome β) :
    (done value rest).andThen next = next value rest := rfl

@[simp] theorem andThen_failed (cause : SyntaxCause) (rest : List Token)
    (next : α → List Token → Outcome β) :
    (failed cause rest).andThen next = failed cause rest := rfl

/-- Reading has gone on from the front of `tokens`, if at all. -/
def Within (tokens : List Token) (outcome : Outcome α) : Prop :=
  outcome.rest <:+ tokens

/-- Reading has gone on from the front of `tokens`, and a phrase that was read has a token. -/
def Advances (tokens : List Token) : Outcome α → Prop
  | done _ rest => rest <:+ tokens ∧ rest.length < tokens.length
  | failed _ rest => rest <:+ tokens

theorem Advances.within {tokens : List Token} {outcome : Outcome α}
    (h : outcome.Advances tokens) : outcome.Within tokens := by
  cases outcome with
  | done => exact h.1
  | failed => exact h

theorem Within.trans {tokens later : List Token} {outcome : Outcome α}
    (h : outcome.Within later) (suffix : later <:+ tokens) : outcome.Within tokens :=
  List.IsSuffix.trans h suffix

/-- What is made of a value that was read does not change what is left. -/
theorem Within.andThen_done {tokens : List Token} {outcome : Outcome α} {f : α → β}
    (h : outcome.Within tokens) : (outcome.andThen fun value => done (f value)).Within tokens := by
  cases outcome <;> exact h

/-- After one token, any reading at all has advanced. -/
theorem Within.advances_cons {token : Token} {tokens : List Token} {outcome : Outcome α}
    (h : outcome.Within tokens) : outcome.Advances (token :: tokens) := by
  have later := h.trans (List.suffix_cons token tokens)
  cases outcome with
  | done => exact ⟨later, Nat.lt_succ_of_le h.length_le⟩
  | failed => exact later

theorem Advances.fewer {tokens rest : List Token} {value : α}
    (h : (done value rest).Advances tokens) : rest.length < tokens.length :=
  h.2

/-- What follows a phrase that has advanced has advanced too. -/
theorem Advances.onward {tokens rest : List Token} {value : α} {later : Outcome β}
    (h : (done value rest).Advances tokens) (within : later.Within rest) :
    later.Advances tokens := by
  have suffix := within.trans h.1
  cases later with
  | done => exact ⟨suffix, Nat.lt_of_le_of_lt within.length_le h.2⟩
  | failed => exact suffix

end Outcome

/-- Takes a phrase off the front of a token list. -/
def Reader (α : Type) := List Token → Outcome α

namespace Reader

/-- The phrase of no tokens. -/
def done (value : α) : Reader α := fun tokens => .done value tokens

/-- Reads one phrase, then another that may depend on it. -/
def andThen (first : Reader α) (next : α → Reader β) : Reader β := fun tokens =>
  (first tokens).andThen next

instance : Monad Reader where
  pure := done
  bind := andThen

@[simp] theorem pure_apply (value : α) (tokens : List Token) :
    (pure value : Reader α) tokens = .done value tokens := rfl

@[simp] theorem bind_apply (first : Reader α) (next : α → Reader β) (tokens : List Token) :
    (first >>= next) tokens = (first tokens).andThen next := rfl

/-- The kind of the front token, which stays where it is. -/
def front? : Reader (Option TokenKind) := fun tokens =>
  .done (tokens.head?.map (·.kind)) tokens

/-- Reads one token out of which something can be made. -/
def token (cause : SyntaxCause) (make? : Token → Option α) : Reader α
  | [] => .failed cause []
  | t :: rest =>
    match make? t with
    | some value => .done value rest
    | none => .failed cause (t :: rest)

def expect (cause : SyntaxCause) (kind : TokenKind) : Reader Unit :=
  token cause fun t => if t.kind = kind then some () else none

def identifier (cause : SyntaxCause) : Reader String :=
  token cause fun t => if t.kind = .identifier then some t.lexeme else none

/-- A reader that stays within the tokens that it is given. -/
def Sound (reader : Reader α) : Prop :=
  ∀ tokens, (reader tokens).Within tokens

theorem sound_pure (value : α) : Sound (pure value : Reader α) := fun _ => List.suffix_refl _

theorem sound_front? : Sound front? := fun _ => List.suffix_refl _

theorem sound_token (cause : SyntaxCause) (make? : Token → Option α) :
    Sound (token cause make?) := by
  intro tokens
  unfold token
  split
  · exact List.suffix_refl _
  · split
    · exact List.suffix_cons ..
    · exact List.suffix_refl _

theorem sound_expect (cause : SyntaxCause) (kind : TokenKind) : Sound (expect cause kind) :=
  sound_token cause _

theorem sound_identifier (cause : SyntaxCause) : Sound (identifier cause) :=
  sound_token cause _

theorem sound_bind {first : Reader α} {next : α → Reader β} (hfirst : Sound first)
    (hnext : ∀ value, Sound (next value)) : Sound (first >>= next) := by
  intro tokens
  have h := hfirst tokens
  show ((first tokens).andThen next).Within tokens
  cases read : first tokens with
  | done value rest =>
    rw [read] at h
    exact (hnext value rest).trans h
  | failed cause rest =>
    rw [read] at h
    exact h

/-- Reads a token of a kind and gives a value for it. -/
def close (cause : SyntaxCause) (kind : TokenKind) (value : α) : Reader α := do
  expect cause kind
  pure value

theorem sound_close (cause : SyntaxCause) (kind : TokenKind) (value : α) :
    Sound (close cause kind value) :=
  sound_bind (sound_expect cause kind) fun _ => sound_pure value

end Reader

end Quill
