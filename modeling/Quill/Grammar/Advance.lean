import Quill.Grammar.Reader

/-!
Outcomes that carry the proof that reading has advanced. Readers that call themselves are built from
these, since the next call must be on fewer tokens.
-/
namespace Quill

/-- A reading of `tokens` that has a token, or has failed. -/
abbrev Advance (α : Type) (tokens : List Token) := { o : Outcome α // o.Advances tokens }

namespace Advance

/-- Failure at the front token. -/
def failed (cause : SyntaxCause) : Advance α tokens :=
  ⟨.failed cause tokens, List.suffix_refl tokens⟩

def one (value : α) : Advance α (t :: rest) :=
  ⟨.done value rest, List.suffix_cons t rest, Nat.lt_succ_self _⟩

def afterToken (next : Advance α rest) : Advance α (t :: rest) :=
  ⟨next.val, next.property.within.advances_cons⟩

/-- A reading that follows one token, where that token counts as one of those ahead. -/
def onward (next : Advance α rest) : { o : Outcome α // o.Within (t :: rest) } :=
  ⟨next.val, next.afterToken.property.within⟩

/-- Reads on after a phrase, on the fewer tokens that are left. -/
def andThen (first : Advance α tokens)
    (next : α → (rest : List Token) → rest.length < tokens.length →
      { o : Outcome β // o.Within rest }) : Advance β tokens :=
  match first with
  | ⟨.failed cause rest, h⟩ => ⟨.failed cause rest, h⟩
  | ⟨.done value rest, h⟩ => ⟨(next value rest h.2).val, by
      have later := (next value rest h.2).property
      cases read : (next value rest h.2).val with
      | done result left =>
        rw [read] at later
        exact ⟨List.IsSuffix.trans later h.1,
          Nat.lt_of_le_of_lt (List.IsSuffix.length_le later) h.2⟩
      | failed cause left =>
        rw [read] at later
        exact List.IsSuffix.trans later h.1⟩

@[simp] theorem val_afterToken (t : Token) (next : Advance α rest) :
    (next.afterToken : Advance α (t :: rest)).val = next.val := rfl

theorem val_andThen {first : Advance α tokens}
    {next : α → (rest : List Token) → rest.length < tokens.length →
      { o : Outcome β // o.Within rest }}
    {on : α → Reader β} (h : ∀ value rest fewer, (next value rest fewer).val = on value rest) :
    (first.andThen next).val = first.val.andThen on := by
  obtain ⟨outcome, advances⟩ := first
  cases outcome with
  | done value rest => exact h value rest advances.2
  | failed => rfl

end Advance

end Quill
