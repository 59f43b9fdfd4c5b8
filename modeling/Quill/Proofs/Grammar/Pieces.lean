import Quill.Proofs.Grammar.Recovery

/-!
The reading of a token list in pieces. Behind a program that has no error, the attempts at the rest
of the list are those at the rest alone: no reader has looked into it, and the errors blame the same
tokens there (`Cursor.attempts_behind`).
-/
namespace Quill

namespace Cursor

/-- The same place in a list that has more tokens in front. -/
def behind (c : Cursor) (front : List Token) : Cursor :=
  ⟨front ++ c.all, c.ahead, c.suffix.trans (List.suffix_append front c.all)⟩

end Cursor

def SyntaxError.behind (error : SyntaxError) (front : List Token) : SyntaxError :=
  ⟨error.cause, error.stop.behind front⟩

def Attempt.behind (front : List Token) : Attempt → Attempt
  | accepted stmt => accepted stmt
  | rejected error => rejected (error.behind front)
  | nothing => nothing

namespace Cursor

theorem attempt_behind (c : Cursor) (front : List Token) :
    (c.behind front).attempt = (c.attempt.1.behind front, c.attempt.2.behind front) := by
  have passed : (c.behind front).skipComments = c.skipComments.behind front := rfl
  by_cases ended : c.skipComments.atEnd = true
  · have alsoEnded : (c.behind front).skipComments.atEnd = true := ended
    rw [attempt_of_atEnd ended, attempt_of_atEnd alsoEnded]
    rfl
  · have alsoGoesOn : ¬ (c.behind front).skipComments.atEnd = true := ended
    obtain ⟨stop, all, left, step⟩ := exists_attempt ended
    obtain ⟨farStop, farAll, farLeft, farStep⟩ := exists_attempt alsoGoesOn
    have same : farStop = stop.behind front :=
      eq_of_ahead (farAll.trans (congrArg (front ++ ·) all.symm)) (farLeft.trans left.symm)
    rw [farStep, step, same, passed]
    have ahead : (c.skipComments.behind front).ahead = c.skipComments.ahead := rfl
    rw [ahead]
    cases Reader.statement c.skipComments.ahead with
    | done => rfl
    | failed => rfl

theorem attempts_behind (c : Cursor) (front : List Token) :
    (c.behind front).attempts = c.attempts.map (Attempt.behind front) := by
  have atEnd : ∀ c : Cursor, (c.behind front).atEnd = c.atEnd := fun _ => rfl
  fun_induction attempts c with
  | case1 c ended => rw [attempts, atEnd, if_pos ended, List.map_nil]
  | case2 c more next ih =>
    rw [attempts, atEnd, if_neg more, attempt_behind]
    exact congrArg (_ :: ·) ih

end Cursor

/-- With more tokens in front, an error blames the token that it blamed before. -/
theorem SyntaxError.blamed?_behind (error : SyntaxError) (front : List Token) :
    (error.behind front).blamed? = error.blamed?.or front.getLast? := by
  simp only [blamed?, behind, Cursor.behind, Cursor.currentOrLast?, Cursor.current?,
    List.getLast?_append, Option.or_assoc]

/-- The diagnostic of an error tells the token that it blames, not where that stands in its list. -/
theorem SyntaxError.diagnostic_congr {error other : SyntaxError} (cause : error.cause = other.cause)
    (blamed : error.blamed? = other.blamed?) : error.diagnostic = other.diagnostic := by
  simp only [diagnostic, message, cause, blamed]

theorem SyntaxError.diagnostic_behind {error : SyntaxError} {t : Token}
    (blames : error.blamed? = some t) (front : List Token) :
    (error.behind front).diagnostic = error.diagnostic := by
  refine diagnostic_congr rfl ?_
  rw [blamed?_behind, blames, Option.some_or]

/-- Each error of a run blames a token of the list. -/
theorem Cursor.exists_blamed (c : Cursor) :
    ∀ error ∈ c.attempts.filterMap Attempt.error?, ∃ t, error.blamed? = some t := by
  intro error member
  obtain ⟨taken, account, -⟩ := c.exists_account
  obtain ⟨inside, blames⟩ := account.blames error member
  exact ⟨_, blames.symm.trans (List.getElem?_eq_getElem inside)⟩

/-- Tokens with more tokens in front: the attempts from where they start on give the same statements
and the same diagnostics. -/
theorem Cursor.attempts_of_front {front tokens : List Token} {d : Cursor}
    (all : d.all = front ++ tokens) (ahead : d.ahead = tokens) :
    d.attempts.filterMap Attempt.statement? =
      (start tokens).attempts.filterMap Attempt.statement? ∧
    (d.attempts.filterMap Attempt.error?).map SyntaxError.diagnostic =
      ((start tokens).attempts.filterMap Attempt.error?).map SyntaxError.diagnostic := by
  have place : d = (start tokens).behind front := eq_of_ahead all ahead
  have statement : Attempt.statement? ∘ Attempt.behind front = Attempt.statement? := by
    funext attempt
    cases attempt <;> rfl
  have error : Attempt.error? ∘ Attempt.behind front =
      fun attempt => attempt.error?.map (SyntaxError.behind · front) := by
    funext attempt
    cases attempt <;> rfl
  rw [place, attempts_behind, List.filterMap_map, List.filterMap_map, statement, error,
    ← List.map_filterMap, List.map_map]
  refine ⟨rfl, List.map_congr_left fun error member => ?_⟩
  obtain ⟨t, blames⟩ := (start tokens).exists_blamed error member
  exact SyntaxError.diagnostic_behind blames front

/-- Reading goes piece by piece. In front of tokens that do not start with an operator, a list
without an end mark that is read without a diagnostic adds its statements and nothing else, whatever
those tokens are and whatever is wrong with them. -/
theorem Sink.parse_append (sink : Sink) (tokens more : List Token)
    (markless : ∀ t ∈ tokens, t.kind ≠ .endOfInput)
    (clean : (sink.parse tokens).2.records = sink.records)
    (noOperator : ∀ t ∈ more.head?, ∀ operator : Operator, t.kind ≠ operator.kind)
    (isLast : ∀ t ∈ more.dropLast, t.kind ≠ .endOfInput) :
    (sink.parse (tokens ++ more)).1.statements =
      (sink.parse tokens).1.statements ++ (sink.parse more).1.statements ∧
    (sink.parse (tokens ++ more)).2 = (sink.parse more).2 := by
  have word := Cursor.attempts_word (.start tokens) tokens none (List.append_nil _).symm markless
    (by simp) (records_parse_eq_iff.mp clean)
  have noMore : Cursor.AtMark more → Cursor.MarkIsLast tokens more := by
    intro mark _ _ _
    match more with
    | [] => rfl
    | [e] => rfl
    | e :: next :: others => exact absurd (mark e rfl) (isLast e (by simp))
  obtain ⟨d, left, all, errors, read⟩ :=
    Cursor.exists_attempts_behind word noOperator noMore (.start (tokens ++ more)) rfl
  obtain ⟨statements, diagnostics⟩ := Cursor.attempts_of_front all left
  constructor
  · exact read.trans (congrArg (_ ++ ·) statements)
  · have records : (Parse.ofTokens (tokens ++ more)).errors.map SyntaxError.diagnostic =
        (Parse.ofTokens more).errors.map SyntaxError.diagnostic :=
      (congrArg (List.map SyntaxError.diagnostic) errors).trans diagnostics
    rw [parse, parse, records]

/-- A closing bracket that opens nothing, `bl y = true` and an end mark. -/
def strayTokens : List Token :=
  [.spelled .bracketClose "]" ⟨3, 1⟩, .spelled .bl "bl" ⟨3, 3⟩, .spelled .identifier "y" ⟨3, 6⟩,
    .spelled .assign "=" ⟨3, 8⟩, .spelled .trueWord "true" ⟨3, 10⟩, .endMark ⟨3, 14⟩]

theorem Sink.parse_strayTokens :
    ((empty none).parse strayTokens).1.statements =
      [.scalar "y" .bool (.literal (.bool true) ⟨3, 10⟩) ⟨3, 3⟩] ∧
    ((empty none).parse strayTokens).2.records.map Diagnostic.summary =
      ["syntax error: Unexpected token at start of statement, found ']' at 3:1"] := by
  constructor
  · with_unfolding_all rfl
  · decide +kernel

/-- Behind the chain the bracket is blamed as it is alone, and both statements are read. -/
theorem Sink.parse_chainTokens_strayTokens :
    (∀ t ∈ chainTokens, t.kind ≠ .endOfInput) ∧
    ((empty none).parse chainTokens).2.records = [] ∧
    (∀ t ∈ strayTokens.head?, ∀ operator : Operator, t.kind ≠ operator.kind) ∧
    (∀ t ∈ strayTokens.dropLast, t.kind ≠ .endOfInput) ∧
    ((empty none).parse (chainTokens ++ strayTokens)).1.statements =
      [.scalar "x" .int chainValue ⟨2, 1⟩,
        .scalar "y" .bool (.literal (.bool true) ⟨3, 10⟩) ⟨3, 3⟩] ∧
    ((empty none).parse (chainTokens ++ strayTokens)).2.records.map Diagnostic.summary =
      ["syntax error: Unexpected token at start of statement, found ']' at 3:1"] := by
  have markless : ∀ t ∈ chainTokens, t.kind ≠ .endOfInput := by decide
  have isLast : ∀ t ∈ strayTokens.dropLast, t.kind ≠ .endOfInput := by decide
  have noOperator : Reader.Stops strayTokens := Reader.stops_cons rfl
  have noEnd : ∀ e ∈ (none : Option Token), e.kind = .endOfInput := by simp
  obtain ⟨errors, read⟩ := Cursor.attempts_of_word programWord_chainTokens noEnd
    (.start chainTokens) (List.append_nil _).symm
  have clean : ((empty none).parse chainTokens).2.records = [] := records_parse_eq_iff.mpr errors
  have chain : ((empty none).parse chainTokens).1.statements =
      [.scalar "x" .int chainValue ⟨2, 1⟩] := read
  obtain ⟨statements, sink⟩ :=
    parse_append (.empty none) chainTokens strayTokens markless clean noOperator isLast
  obtain ⟨alone, blamed⟩ := parse_strayTokens
  refine ⟨markless, clean, noOperator, isLast, ?_, ?_⟩
  · rw [statements, chain, alone]
    rfl
  · rw [sink, blamed]

end Quill
