import Quill.Grammar.Program
import Quill.Proofs.Grammar.Statement

/-!
What one attempt at a statement can do, and how the attempts of a run follow each other. Every
statement about runs is an induction over `attempts` with these steps (`attempts_induction`).
-/
namespace Quill.Cursor

/-- Tokens that start with an end mark, or none. -/
def AtMark (tokens : List Token) : Prop :=
  ∀ t ∈ tokens.head?, t.kind = .endOfInput

/-- One attempt at a cursor: what it gives, and the cursor after it. Comments are passed first. Then
a statement is taken, or reading fails and the token that it stops at is passed, or an end mark is
passed. -/
inductive Step (c : Cursor) : Attempt → Cursor → Prop
  | accepted {comments word : List Token} {stmt : Stmt} {next : Cursor}
      (hcomments : ∀ t ∈ comments, t.kind = .comment) (hword : StatementWord word stmt)
      (ahead : c.ahead = comments ++ word ++ next.ahead) (all : next.all = c.all) :
      Step c (.accepted stmt) next
  | rejected {comments passed : List Token} {cause : SyntaxCause} {stop : Cursor}
      (hcomments : ∀ t ∈ comments, t.kind = .comment)
      (notMark : ¬ AtMark (passed ++ stop.ahead))
      (failed : Reader.statement (passed ++ stop.ahead) = .failed cause stop.ahead)
      (ahead : c.ahead = comments ++ passed ++ stop.ahead) (all : stop.all = c.all) :
      Step c (.rejected ⟨cause, stop⟩) stop.advance
  | nothing {comments ending : List Token} {next : Cursor}
      (hcomments : ∀ t ∈ comments, t.kind = .comment) (mark : AtMark ending)
      (ahead : c.ahead = comments ++ ending) (left : next.ahead = ending.tail)
      (all : next.all = c.all) : Step c .nothing next

theorem eq_of_ahead {c d : Cursor} (all : c.all = d.all) (ahead : c.ahead = d.ahead) : c = d := by
  cases c
  cases d
  cases all
  cases ahead
  rfl

theorem atEnd_eq_true_iff {c : Cursor} : c.atEnd = true ↔ AtMark c.ahead := by
  unfold atEnd current? AtMark
  cases c.ahead <;> simp

theorem ahead_skipComments (c : Cursor) :
    ∃ comments, (∀ t ∈ comments, t.kind = .comment) ∧
      c.ahead = comments ++ c.skipComments.ahead := by
  refine ⟨c.ahead.takeWhile (·.kind = .comment), fun t member => ?_, ?_⟩
  · simpa using List.all_eq_true.mp List.all_takeWhile t member
  · exact (List.takeWhile_append_dropWhile ..).symm

theorem attempt_of_atEnd {c : Cursor} (h : c.skipComments.atEnd = true) :
    c.attempt = (.nothing, c.skipComments.advance) :=
  if_pos h

/-- Behind the comments an attempt does what the reader of statements does, and stops where that
does. -/
theorem exists_attempt {c : Cursor} (h : ¬ c.skipComments.atEnd = true) :
    ∃ stop : Cursor, stop.all = c.all ∧
      stop.ahead = (Reader.statement c.skipComments.ahead).rest ∧
      c.attempt = match Reader.statement c.skipComments.ahead with
        | .done stmt _ => (.accepted stmt, stop)
        | .failed cause _ => (.rejected ⟨cause, stop⟩, stop.advance) :=
  ⟨c.skipComments.moveTo _ (Reader.statement_advances c.skipComments.ahead).within, rfl, rfl,
    if_neg h⟩

theorem attempt_step (c : Cursor) : Step c c.attempt.1 c.attempt.2 := by
  obtain ⟨comments, hcomments, ahead⟩ := c.ahead_skipComments
  by_cases ended : c.skipComments.atEnd = true
  · rw [attempt_of_atEnd ended]
    exact .nothing hcomments (atEnd_eq_true_iff.mp ended) ahead rfl rfl
  obtain ⟨stop, all, left, step⟩ := exists_attempt ended
  rw [step]
  cases read : Reader.statement c.skipComments.ahead with
  | done stmt rest =>
    rw [read] at left
    obtain ⟨word, same, hword⟩ := Reader.statement_word _ _ _ read
    refine .accepted hcomments hword ?_ all
    rw [List.append_assoc, left, Outcome.rest, ← same]
    exact ahead
  | failed cause rest =>
    have within := (Reader.statement_advances c.skipComments.ahead).within
    rw [read] at left within
    obtain ⟨passed, front⟩ : rest <:+ c.skipComments.ahead := within
    rw [← show stop.ahead = rest from left] at front read
    rw [← front] at ahead read
    refine .rejected hcomments ?_ read (by rw [List.append_assoc]; exact ahead) all
    rw [front]
    exact fun mark => ended (atEnd_eq_true_iff.mpr mark)

theorem Step.all {c next : Cursor} {attempt : Attempt} (h : Step c attempt next) :
    next.all = c.all := by
  cases h with
  | accepted _ _ _ all => exact all
  | rejected _ _ _ _ all => exact all
  | nothing _ _ _ _ all => exact all

/-- What holds at the end, and at every place behind which it holds after one attempt, holds at every
place. -/
theorem place_induction {motive : Cursor → Prop} (atMark : ∀ c : Cursor, AtMark c.ahead → motive c)
    (attempt : ∀ c : Cursor, ¬ AtMark c.ahead → motive c.attempt.2 → motive c) (c : Cursor) :
    motive c := by
  induction c using attempts.induct with
  | case1 c ended => exact atMark c (atEnd_eq_true_iff.mp ended)
  | case2 c more next ih =>
    exact attempt c (fun ended => more (atEnd_eq_true_iff.mpr ended)) ih

/-- What holds of no attempts at the end, and of one attempt more if it holds of those after it,
holds of all attempts of a run. -/
theorem attempts_induction {motive : Cursor → List Attempt → Prop}
    (atMark : ∀ c : Cursor, AtMark c.ahead → motive c [])
    (step : ∀ (c : Cursor) (attempt : Attempt) (next : Cursor) (later : List Attempt),
      ¬ AtMark c.ahead → Step c attempt next → motive next later → motive c (attempt :: later))
    (c : Cursor) : motive c c.attempts := by
  fun_induction attempts c with
  | case1 c ended => exact atMark c (atEnd_eq_true_iff.mp ended)
  | case2 c more next ih =>
    exact step c _ _ _ (fun mark => more (atEnd_eq_true_iff.mpr mark)) c.attempt_step ih

end Quill.Cursor
