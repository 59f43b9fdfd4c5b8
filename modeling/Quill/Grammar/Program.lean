import Quill.Grammar.Statement

/-!
Reading programs. One statement is attempted after the other. An attempt that fails has one syntax
error, the token that it blames is passed over, and the next attempt starts behind it; so each
attempt moves the cursor on (`attempt_advances`) and the reading ends.
-/
namespace Quill

inductive Attempt where
  | accepted (statement : Stmt)
  | rejected (error : SyntaxError)
  /-- Nothing but comments lay ahead. -/
  | nothing
  deriving Repr

namespace Attempt

def statement? : Attempt → Option Stmt
  | accepted statement => some statement
  | _ => none

def error? : Attempt → Option SyntaxError
  | rejected error => some error
  | _ => none

end Attempt

namespace Cursor

/-- Attempts a statement, and gives the place to go on from. -/
def attempt (c : Cursor) : Attempt × Cursor :=
  let first := c.skipComments
  if first.atEnd then (.nothing, first.advance)
  else
    let outcome := Reader.statement first.ahead
    let stop := first.moveTo outcome.rest (Reader.statement_advances first.ahead).within
    match outcome with
    | .done statement _ => (.accepted statement, stop)
    | .failed cause _ => (.rejected ⟨cause, stop⟩, stop.advance)

theorem attempt_advances (c : Cursor) (h : c.atEnd = false) :
    c.attempt.2.ahead.length < c.ahead.length := by
  have comments : c.skipComments.ahead.length ≤ c.ahead.length :=
    (List.dropWhile_suffix _).length_le
  have some_ahead : 0 < c.ahead.length := by
    cases ahead : c.ahead with
    | nil => simp [atEnd, current?, ahead] at h
    | cons => simp
  have advanced := Reader.statement_advances c.skipComments.ahead
  unfold attempt
  dsimp only
  split
  · simp only [advance, moveTo, List.length_tail]
    omega
  · split
    · next read =>
      rw [read] at advanced
      simp only [moveTo, read, Outcome.rest]
      exact Nat.lt_of_lt_of_le advanced.2 comments
    · next cause rest read =>
      rw [read] at advanced
      have left : rest.length ≤ c.skipComments.ahead.length := List.IsSuffix.length_le advanced
      simp only [advance, moveTo, read, Outcome.rest, List.length_tail]
      omega

/-- The attempts from a cursor on, up to an end mark or the end of the list. -/
def attempts (c : Cursor) : List Attempt :=
  if c.atEnd then []
  else
    let step := c.attempt
    step.1 :: attempts step.2
termination_by c.ahead.length
decreasing_by
  next h => exact attempt_advances c (Bool.eq_false_iff.mpr h)

end Cursor

/-- What reading a token list gives. A list with errors has a program as well. -/
structure Parse where
  program : Program
  errors : List SyntaxError
  deriving Repr

def Parse.ofTokens (tokens : List Token) : Parse :=
  let attempts := (Cursor.start tokens).attempts
  ⟨.ofStatements (attempts.filterMap Attempt.statement?), attempts.filterMap Attempt.error?⟩

end Quill
