import Mathlib.Data.List.Basic
import Quill.Proofs.Grammar.FirstError
import Quill.Proofs.Grammar.Pieces

/-!
Where an end mark ends the reading, and where it does not. A run ends at an end mark if an attempt
would start there. But an attempt that fails at the mark passes it over like any other token, and
one that finds nothing but comments passes the mark with them; then the run goes on behind the mark,
as it would go at the tokens there alone.
-/
namespace Quill

/-- A run with these errors over `front` and an end mark goes on behind the mark: an error is at the
mark, or a comment stands in front of the mark and no error is at the comment. -/
def PassesMark (errors : List SyntaxError) (front : List Token) (mark : Token) : Prop :=
  (∃ error ∈ errors, error.stop.ahead = [mark]) ∨
  ∃ comment ∈ front.getLast?, comment.kind = .comment ∧
    ∀ error ∈ errors, error.stop.ahead ≠ [comment, mark]

namespace PassesMark

variable {errors : List SyntaxError} {error : SyntaxError} {front left : List Token}
  {t mark : Token}

theorem not_nil : ¬PassesMark [] [] mark := by
  simp [PassesMark]

theorem of_comments {comments : List Token} (hcomments : ∀ t ∈ comments, t.kind = .comment)
    (notEmpty : comments ≠ []) : PassesMark [] comments mark := by
  have last := List.getLast?_eq_getLast_of_ne_nil notEmpty
  exact .inr ⟨_, last, hcomments _ (List.getLast_mem notEmpty), by simp⟩

theorem of_mark (stop : error.stop.ahead = [mark]) : PassesMark (error :: errors) front mark :=
  .inl ⟨error, List.mem_cons_self, stop⟩

/-- Tokens that do not end in a comment make no difference. -/
theorem append_iff (noComment : ∀ t ∈ front.getLast?, t.kind ≠ .comment) :
    PassesMark errors (front ++ left) mark ↔ PassesMark errors left mark := by
  refine or_congr Iff.rfl (exists_congr fun comment => ?_)
  rw [List.getLast?_append]
  cases left.getLast? with
  | some last => rfl
  | none => exact ⟨fun h => absurd h.2.1 (noComment comment h.1), fun h => absurd h.1 (by simp)⟩

/-- An error at a token in front of the mark makes no difference, nor does that token. -/
theorem cons_iff (stop : error.stop.ahead = t :: (left ++ [mark])) :
    PassesMark (error :: errors) (front ++ t :: left) mark ↔ PassesMark errors left mark := by
  refine or_congr (by simp [stop]) (exists_congr fun comment => ?_)
  cases left with
  | nil =>
    refine ⟨fun h => ?_, fun h => absurd h.1 (by simp)⟩
    obtain rfl : t = comment := by simpa using h.1
    exact absurd stop (h.2.2 error List.mem_cons_self)
  | cons u left => simp [stop, List.getLast?_append]

end PassesMark

/-- The last token of a statement is no comment. -/
theorem StatementWord.last_ne_comment {word : List Token} {stmt : Stmt}
    (h : StatementWord word stmt) (front : List Token) :
    ∀ t ∈ (front ++ word).getLast?, t.kind ≠ .comment := by
  intro t last
  by_cases declares : stmt.declared?.isSome
  · obtain ⟨first, more, whole, -⟩ := h.exists_cons
    have inWord : t ∈ word.getLast? := by
      rw [whole] at last ⊢
      simpa [List.getLast?_append] using last
    exact (h.solid declares t (List.mem_of_getLast? inWord)).2
  · cases h with
    | @output stdout opening closing _ word _ _ _ _ hclosing _ =>
      obtain rfl : closing = t := by simpa [List.getLast?_cons, List.getLast?_append] using last
      simp [hclosing]
    | scalar | flag | values | sized => exact absurd rfl declares

/-- An error depends on the token that it blames, not on the list that the token stands in. -/
theorem SyntaxError.diagnostic_of_ahead {cause : SyntaxCause} {stop other : Cursor} {t : Token}
    {more others : List Token} (ahead : stop.ahead = t :: more)
    (otherAhead : other.ahead = t :: others) :
    (SyntaxError.mk cause stop).diagnostic = (SyntaxError.mk cause other).diagnostic := by
  have blamed : (SyntaxError.mk cause stop).blamed? = some t := blamed?_of_ahead ahead
  have otherBlamed : (SyntaxError.mk cause other).blamed? = some t := blamed?_of_ahead otherAhead
  exact diagnostic_congr rfl (blamed.trans otherBlamed.symm)

namespace Cursor

/-- Reading at a cursor gives what some attempts have given, and then what reading at another place
of the list gives. -/
structure Continues (c : Cursor) (attempts : List Attempt) (d : Cursor) : Prop where
  all : d.all = c.all
  statements : c.attempts.filterMap Attempt.statement? =
    attempts.filterMap Attempt.statement? ++ d.attempts.filterMap Attempt.statement?
  diagnostics : c.attempts.flatMap Attempt.diagnostics =
    attempts.flatMap Attempt.diagnostics ++ d.attempts.flatMap Attempt.diagnostics

namespace Continues

variable {c d : Cursor} {attempts : List Attempt} {attempt : Attempt}

theorem nil (c : Cursor) : Continues c [] c := ⟨rfl, rfl, rfl⟩

theorem cons (goesOn : ¬ AtMark c.ahead)
    (statement : c.attempt.1.statement? = attempt.statement?)
    (diagnostics : c.attempt.1.diagnostics = attempt.diagnostics)
    (h : Continues c.attempt.2 attempts d) : Continues c (attempt :: attempts) d := by
  refine ⟨h.all.trans c.attempt_step.all, ?_, ?_⟩
  · rw [attempts_of_not_atMark goesOn, List.filterMap_cons, List.filterMap_cons, statement]
    cases attempt.statement? with
    | none => exact h.statements
    | some stmt => exact congrArg (stmt :: ·) h.statements
  · rw [attempts_of_not_atMark goesOn, List.flatMap_cons, List.flatMap_cons, diagnostics,
      h.diagnostics, List.append_assoc]

/-- An attempt that fails at the same token of another list. -/
theorem rejected {cause : SyntaxCause} {stop place : Cursor} {t : Token} {more others : List Token}
    (goesOn : ¬ AtMark c.ahead) (step : c.attempt = (.rejected ⟨cause, stop⟩, stop.advance))
    (ahead : stop.ahead = t :: more) (same : place.ahead = t :: others)
    (h : Continues stop.advance attempts d) :
    Continues c (.rejected ⟨cause, place⟩ :: attempts) d := by
  have blames : (SyntaxError.mk cause stop).diagnostic = (SyntaxError.mk cause place).diagnostic :=
    SyntaxError.diagnostic_of_ahead ahead same
  refine .cons goesOn ?_ ?_ ?_ <;> rw [step]
  · rfl
  · exact congrArg (fun d => [d]) blames
  · exact h

end Continues

/-- Tokens up to an end mark, and the same tokens with more behind the mark: the run over the latter
gives what the run over the former gives, and goes on behind the mark or ends there. -/
theorem exists_continues {mark : Token} (isMark : mark.kind = .endOfInput) (more : List Token)
    (c : Cursor) : ∀ {body : List Token}, Markless body → c.ahead = body ++ [mark] →
      ∀ d : Cursor, d.ahead = body ++ mark :: more → ∃ e, Continues d c.attempts e ∧
        (PassesMark (c.attempts.filterMap Attempt.error?) body mark ∧ e.ahead = more ∨
          ¬PassesMark (c.attempts.filterMap Attempt.error?) body mark ∧ e.ahead = mark :: more) := by
  have ending : ∀ others, AtMark (mark :: others) := atMark_cons isMark
  induction c using place_induction with
  | atMark c atMark =>
    intro body markless near d far
    obtain rfl := eq_nil_of_atMark markless (near ▸ atMark)
    rw [attempts_of_atMark atMark]
    exact ⟨d, .nil d, .inr ⟨PassesMark.not_nil, far⟩⟩
  | attempt c notAtMark ih =>
    intro body markless near d far
    have notEmpty : body ≠ [] := by
      rintro rfl
      exact notAtMark (near ▸ ending [])
    rw [attempts_of_not_atMark notAtMark]
    have goesOn : ¬ AtMark d.ahead :=
      far ▸ fun atMark => notEmpty (eq_nil_of_atMark markless atMark)
    cases upToMark markless isMark with
    | nothing hcomments =>
      -- There are only comments, and the mark is passed with them.
      obtain ⟨nothing, left⟩ := attempt_of_comments near hcomments (ending [])
      obtain ⟨farNothing, farLeft⟩ := attempt_of_comments far hcomments (ending more)
      have noneLeft : c.attempt.2.attempts = [] := attempts_of_nil left
      rw [nothing, noneLeft]
      have continues : Continues d [.nothing] d.attempt.2 :=
        .cons goesOn (by rw [farNothing]) (by rw [farNothing]) (.nil _)
      exact ⟨_, continues, .inl ⟨.of_comments hcomments notEmpty, farLeft⟩⟩
    | @accepted comments word left stmt hcomments hword read =>
      rw [List.append_assoc, List.append_assoc] at near far
      obtain ⟨-, accepted, nearLeft⟩ := attempt_of_done near hcomments (read [])
      obtain ⟨-, farAccepted, farLeft⟩ := attempt_of_done far hcomments (read more)
      obtain ⟨e, continues, place⟩ :=
        ih (markless_append.mp (markless_append.mp markless).2).2 nearLeft _ farLeft
      rw [accepted]
      refine ⟨e, .cons goesOn (by rw [farAccepted]) (by rw [farAccepted]) continues, ?_⟩
      rw [← List.append_assoc, PassesMark.append_iff (hword.last_ne_comment comments)]
      exact place
    | @rejected comments passed left cause hcomments noComment notMark failed =>
      rw [List.append_assoc, List.append_assoc] at near far
      obtain ⟨-, stop, rejected, ahead, -⟩ :=
        attempt_of_failed near hcomments (noComment []) (notMark []) (failed [])
      obtain ⟨-, farStop, farRejected, farAhead, -⟩ :=
        attempt_of_failed far hcomments (noComment more) (notMark more) (failed more)
      rw [rejected]
      cases left with
      | nil =>
        -- The attempt fails at the mark, which is passed.
        have noneLeft : stop.advance.attempts = [] := attempts_of_nil (congrArg List.tail ahead)
        rw [noneLeft]
        exact ⟨_, .rejected goesOn farRejected farAhead ahead (.nil _),
          .inl ⟨.of_mark ahead, congrArg List.tail farAhead⟩⟩
      | cons t left =>
        rw [rejected] at ih
        simp only [markless_append, markless_cons] at markless
        obtain ⟨e, continues, place⟩ := ih markless.2.2.2 (congrArg List.tail ahead)
          farStop.advance (congrArg List.tail farAhead)
        have errors : (Attempt.rejected ⟨cause, stop⟩ :: stop.advance.attempts).filterMap
            Attempt.error? = ⟨cause, stop⟩ :: stop.advance.attempts.filterMap Attempt.error? := rfl
        refine ⟨e, .rejected goesOn farRejected farAhead ahead continues, ?_⟩
        rw [errors, ← List.append_assoc, PassesMark.cons_iff ahead]
        exact place

end Cursor

namespace Sink

variable {front : List Token} {mark : Token}

/-- A run that does not go on behind the end mark ends there. -/
theorem parse_of_not_passesMark (sink : Sink) (markless : Markless front)
    (isMark : mark.kind = .endOfInput)
    (ends : ¬PassesMark (Parse.ofTokens (front ++ [mark])).errors front mark) (more : List Token) :
    sink.parse (front ++ mark :: more) = sink.parse (front ++ [mark]) := by
  obtain ⟨e, continues, ⟨passes, -⟩ | ⟨-, ahead⟩⟩ := Cursor.exists_continues isMark more
    (.start (front ++ [mark])) markless rfl (.start (front ++ mark :: more)) rfl
  · exact absurd passes ends
  · have nothing : e.attempts = [] :=
      Cursor.attempts_of_atMark (ahead ▸ Cursor.atMark_cons isMark more)
    rw [parse_eq, parse_eq, continues.statements, continues.diagnostics, nothing]
    simp

/-- A run that goes on behind the end mark reads what is there as it is read alone. -/
theorem parse_of_passesMark (sink : Sink) (markless : Markless front)
    (isMark : mark.kind = .endOfInput)
    (passes : PassesMark (Parse.ofTokens (front ++ [mark])).errors front mark)
    (more : List Token) :
    (sink.parse (front ++ mark :: more)).1.statements =
      (sink.parse (front ++ [mark])).1.statements ++ (sink.parse more).1.statements ∧
    (sink.parse (front ++ mark :: more)).2 = ((sink.parse (front ++ [mark])).2.parse more).2 := by
  obtain ⟨e, continues, ⟨-, ahead⟩ | ⟨ends, -⟩⟩ := Cursor.exists_continues isMark more
    (.start (front ++ [mark])) markless rfl (.start (front ++ mark :: more)) rfl
  · have all : e.all = (front ++ [mark]) ++ more := by
      rw [continues.all, List.append_assoc]
      rfl
    obtain ⟨statements, diagnostics⟩ := Cursor.attempts_of_front all ahead
    rw [← Attempt.flatMap_diagnostics, ← Attempt.flatMap_diagnostics] at diagnostics
    simp only [parse_eq, continues.statements, continues.diagnostics, statements, diagnostics,
      pushAll_append]
    exact ⟨rfl, trivial⟩
  · exact absurd passes ends

end Sink

def flagTokens : List Token :=
  [.spelled .bl "bl" ⟨2, 1⟩, .spelled .identifier "y" ⟨2, 4⟩, .spelled .assign "=" ⟨2, 6⟩,
    .spelled .trueWord "true" ⟨2, 8⟩]

theorem Parse.statements_flagTokens :
    (ofTokens flagTokens).program.statements =
      [.scalar "y" .bool (.literal (.bool true) ⟨2, 8⟩) ⟨2, 1⟩] := by
  with_unfolding_all rfl

/-- Which end mark ends the reading: the first one, unless an attempt fails at it or it comes right
behind a comment that no attempt fails at. Then the tokens behind it are read as well, as they are
read alone. -/
theorem Sink.parse_upTo_mark (sink : Sink) (front : List Token) (mark : Token)
    (markless : ∀ t ∈ front, t.kind ≠ .endOfInput) (isMark : mark.kind = .endOfInput) :
    let errors := (Parse.ofTokens (front ++ [mark])).errors
    ((∀ more, sink.parse (front ++ mark :: more) = sink.parse (front ++ [mark])) ↔
      ¬PassesMark errors front mark) ∧
    (PassesMark errors front mark → ∀ more,
      (sink.parse (front ++ mark :: more)).1.statements =
        (sink.parse (front ++ [mark])).1.statements ++ (sink.parse more).1.statements ∧
      (sink.parse (front ++ mark :: more)).2 =
        ((sink.parse (front ++ [mark])).2.parse more).2) := by
  refine ⟨⟨fun same passes => ?_, sink.parse_of_not_passesMark markless isMark⟩,
    sink.parse_of_passesMark markless isMark⟩
  obtain ⟨longer, -⟩ := sink.parse_of_passesMark markless isMark passes flagTokens
  rw [same flagTokens] at longer
  have nothing : (Parse.ofTokens flagTokens).program.statements = [] :=
    List.self_eq_append_right.mp longer
  rw [Parse.statements_flagTokens] at nothing
  cases nothing

def loneNew : List Token := [.spelled .new "new" ⟨1, 1⟩]

/-- The name is missed at the end mark, so what stands behind the mark is read. -/
theorem Sink.parse_loneNew_flagTokens :
    ((empty none).parse (loneNew ++ .endMark ⟨1, 4⟩ :: flagTokens)).1.statements =
      [.scalar "y" .bool (.literal (.bool true) ⟨2, 8⟩) ⟨2, 1⟩] ∧
    ((empty none).parse (loneNew ++ [.endMark ⟨1, 4⟩])).1.statements = [] ∧
    (empty none).parse (loneNew ++ .endMark ⟨1, 4⟩ :: flagTokens) ≠
      (empty none).parse (loneNew ++ [.endMark ⟨1, 4⟩]) := by
  have far : ((empty none).parse (loneNew ++ .endMark ⟨1, 4⟩ :: flagTokens)).1.statements =
      [.scalar "y" .bool (.literal (.bool true) ⟨2, 8⟩) ⟨2, 1⟩] := by
    with_unfolding_all rfl
  have near : ((empty none).parse (loneNew ++ [.endMark ⟨1, 4⟩])).1.statements = [] := by
    with_unfolding_all rfl
  refine ⟨far, near, fun same => ?_⟩
  rw [same, near] at far
  cases far

theorem passesMark_loneNew :
    PassesMark (Parse.ofTokens (loneNew ++ [.endMark ⟨1, 4⟩])).errors loneNew (.endMark ⟨1, 4⟩) := by
  have stops : (Parse.ofTokens (loneNew ++ [.endMark ⟨1, 4⟩])).errors.map
      (fun error => error.stop.ahead) = [[.endMark ⟨1, 4⟩]] := by
    decide +kernel
  have atMark : [Token.endMark ⟨1, 4⟩] ∈ (Parse.ofTokens (loneNew ++ [.endMark ⟨1, 4⟩])).errors.map
      (fun error => error.stop.ahead) := by
    rw [stops]
    exact List.mem_singleton_self _
  obtain ⟨error, member, stop⟩ := List.mem_map.mp atMark
  exact .inl ⟨error, member, stop⟩

theorem Sink.parse_upTo_mark_loneNew :
    (∀ t ∈ loneNew, t.kind ≠ .endOfInput) ∧
    ¬(∀ more, (empty none).parse (loneNew ++ .endMark ⟨1, 4⟩ :: more) =
      (empty none).parse (loneNew ++ [.endMark ⟨1, 4⟩])) ∧
    ∀ more, ((empty none).parse (loneNew ++ .endMark ⟨1, 4⟩ :: more)).1.statements =
      ((empty none).parse (loneNew ++ [.endMark ⟨1, 4⟩])).1.statements ++
        ((empty none).parse more).1.statements := by
  have markless : ∀ t ∈ loneNew, t.kind ≠ .endOfInput := by decide
  obtain ⟨ends, goesOn⟩ := Sink.parse_upTo_mark (.empty none) loneNew (.endMark ⟨1, 4⟩) markless rfl
  exact ⟨markless, fun same => ends.mp same passesMark_loneNew,
    fun more => (goesOn passesMark_loneNew more).1⟩

end Quill
