import Quill.Proofs.Grammar.Completion
import Quill.Proofs.Grammar.Recovery

/-!
The first syntax error stands as early as it can. The tokens before the one that it blames are the
start of a program, and with that token they are not.
-/
namespace Quill

namespace Cursor

theorem head?_skipComments (c : Cursor) : ∀ t ∈ c.skipComments.ahead.head?, t.kind ≠ .comment := by
  intro t member comment
  have stop := List.head?_dropWhile_not (fun t : Token => decide (t.kind = .comment)) c.ahead
  have member : (c.ahead.dropWhile (·.kind = .comment)).head? = some t := member
  rw [member] at stop
  simp [comment] at stop

/-- An attempt behind comments at tokens that the reader of statements fails on. -/
theorem attempt_of_failed {c : Cursor} {comments front rest : List Token} {cause : SyntaxCause}
    (ahead : c.ahead = comments ++ front) (hcomments : ∀ t ∈ comments, t.kind = .comment)
    (noComment : ∀ t ∈ front.head?, t.kind ≠ .comment) (goesOn : ¬ AtMark front)
    (failed : Reader.statement front = .failed cause rest) :
    ¬ AtMark c.ahead ∧ ∃ stop : Cursor,
      c.attempt = (.rejected ⟨cause, stop⟩, stop.advance) ∧ stop.ahead = rest ∧
      stop.all = c.all := by
  obtain ⟨stop, left, all, -, rejects⟩ := exists_attempt_eq ahead hcomments noComment goesOn
  rw [failed] at left
  exact ⟨ahead ▸ not_atMark_append hcomments goesOn, stop, rejects cause rest failed, left, all⟩

/-- What an attempt comes to at tokens in front of an end mark, whatever stands behind the mark: it
passes comments and the mark, or it takes a statement, or it fails at one of the tokens or at the
mark. -/
inductive UpToMark (mark : Token) : List Token → Prop
  | nothing {comments : List Token} (hcomments : ∀ t ∈ comments, t.kind = .comment) :
      UpToMark mark comments
  | accepted {comments word left : List Token} {stmt : Stmt}
      (hcomments : ∀ t ∈ comments, t.kind = .comment) (hword : StatementWord word stmt)
      (read : ∀ more, Reader.statement (word ++ (left ++ mark :: more)) =
        .done stmt (left ++ mark :: more)) :
      UpToMark mark (comments ++ (word ++ left))
  | rejected {comments passed left : List Token} {cause : SyntaxCause}
      (hcomments : ∀ t ∈ comments, t.kind = .comment)
      (noComment : ∀ more, ∀ t ∈ (passed ++ (left ++ mark :: more)).head?, t.kind ≠ .comment)
      (goesOn : ∀ more, ¬ AtMark (passed ++ (left ++ mark :: more)))
      (failed : ∀ more, Reader.statement (passed ++ (left ++ mark :: more)) =
        .failed cause (left ++ mark :: more)) :
      UpToMark mark (comments ++ (passed ++ left))

/-- Reading does not look behind an end mark. -/
theorem upToMark {body : List Token} (markless : Markless body) {mark : Token}
    (isMark : mark.kind = .endOfInput) : UpToMark mark body := by
  have ending : AtMark [mark] := atMark_cons isMark []
  obtain ⟨comments, hcomments, split⟩ := (start body).ahead_skipComments
  have noComment := (start body).head?_skipComments
  generalize (start body).skipComments.ahead = front at split noComment
  obtain rfl : body = comments ++ front := split
  have lookedAt : ∀ left more : List Token, (left ++ [mark]).head? = (left ++ mark :: more).head? :=
    fun left _ => Reader.head?_append_congr left rfl
  cases read : Reader.statement (front ++ [mark]) with
  | done stmt rest =>
    obtain ⟨word, same, hword⟩ := Reader.statement_word _ _ _ read
    obtain ⟨left, rfl, rfl⟩ := split_of_atMark ending hword.markless same
    rw [List.append_assoc] at read
    exact .accepted hcomments hword fun more =>
      Reader.local_statement.done read (lookedAt left more)
  | failed cause rest =>
    obtain ⟨passed, more, same, stmt, word⟩ := Reader.completable_statement.completes _ _ _ read
    obtain ⟨left, rfl, rfl⟩ := split_of_atMark ending (markless_append.mp word.markless).1 same
    cases front : passed ++ left with
    | nil =>
      rw [List.append_nil]
      exact .nothing hcomments
    | cons t others =>
      have first : ∀ more, (passed ++ (left ++ mark :: more)).head? = some t := by
        intro more
        rw [← List.append_assoc, front]
        rfl
      rw [← front]
      rw [front] at noComment
      rw [List.append_assoc] at read
      refine .rejected hcomments (fun more => ?_) (fun more atMark => ?_) fun more =>
        Reader.local_statement.failed read (lookedAt left more)
      · rw [first]
        exact noComment
      · exact markless t (by simp [front]) (atMark t (first more))

/-- The first error of a run: `before` can go on to be a program, `before` and `t` cannot. -/
structure FirstError (c : Cursor) (error : SyntaxError) (before after : List Token) (t : Token) :
    Prop where
  ahead : c.ahead = before ++ t :: after
  stop : error.stop.ahead = t :: after
  all : error.stop.all = c.all
  completes : ∃ more statements, ProgramWord (before ++ more) statements
  fails : ∀ (d : Cursor) (others : List Token), d.ahead = before ++ t :: others →
    d.attempts.filterMap Attempt.error? ≠ []

namespace FirstError

variable {c : Cursor} {error : SyntaxError} {comments front rest before after : List Token}
  {t : Token}

/-- The first error of a run stays the first one behind a statement. -/
theorem behind_statement {stmt : Stmt} (ahead : c.ahead = comments ++ front)
    (hcomments : ∀ t ∈ comments, t.kind = .comment)
    (read : Reader.statement front = .done stmt rest)
    (h : FirstError c.attempt.2 error before after t) :
    ∃ passed, FirstError c error passed after t := by
  obtain ⟨-, -, left⟩ := attempt_of_done ahead hcomments read
  obtain ⟨word, rfl, hword⟩ := Reader.statement_word _ _ _ read
  obtain ⟨more, statements, program⟩ := h.completes
  have rest_eq : rest = before ++ t :: after := left.symm.trans h.ahead
  refine ⟨comments ++ word ++ before, ?_, h.stop, ?_, ⟨more, stmt :: statements, ?_⟩, ?_⟩
  · rw [ahead, rest_eq]
    simp
  · exact h.all.trans c.attempt_step.all
  · rw [List.append_assoc]
    exact .statement hcomments hword program
  · intro d others dAhead
    have lookedAt : rest.head? = (before ++ t :: others).head? := by
      rw [rest_eq]
      exact Reader.head?_append_congr before rfl
    have read := Reader.local_statement.done read lookedAt
    rw [List.append_assoc, List.append_assoc] at dAhead
    obtain ⟨goesOn, accepted, dLeft⟩ := attempt_of_done dAhead hcomments read
    rw [attempts_of_not_atMark goesOn, accepted]
    exact h.fails _ others dLeft

/-- An attempt that fails has the first error. -/
theorem of_failed {cause : SyntaxCause} {stop : Cursor} (ahead : c.ahead = comments ++ front)
    (hcomments : ∀ t ∈ comments, t.kind = .comment)
    (noComment : ∀ t ∈ front.head?, t.kind ≠ .comment) (goesOn : ¬ AtMark front)
    (failed : Reader.statement front = .failed cause (t :: after)) (left : stop.ahead = t :: after)
    (all : stop.all = c.all) : ∃ passed, FirstError c ⟨cause, stop⟩ passed after t := by
  obtain ⟨passed, more, rfl, stmt, word⟩ := Reader.completable_statement.completes _ _ _ failed
  refine ⟨comments ++ passed, ?_, left, all, ⟨more, [stmt], ?_⟩, ?_⟩
  · rw [ahead, List.append_assoc]
  · have program := @ProgramWord.statement _ _ [] _ _ hcomments word (.comments (by simp))
    simpa using program
  · intro d others dAhead
    have lookedAt : (passed ++ t :: after).head? = (passed ++ t :: others).head? :=
      Reader.head?_append_congr passed rfl
    have failed := Reader.local_statement.failed failed (rfl : _ = (t :: others).head?)
    rw [AtMark, lookedAt] at goesOn
    rw [lookedAt] at noComment
    rw [List.append_assoc] at dAhead
    obtain ⟨dGoesOn, dStop, rejected, -⟩ :=
      attempt_of_failed dAhead hcomments noComment goesOn failed
    rw [attempts_of_not_atMark dGoesOn, rejected]
    exact List.cons_ne_nil _ _

end FirstError

/-- A run over tokens with an end mark behind them has a first error, if it has one at all. -/
theorem exists_firstError (c : Cursor) {error : SyntaxError} {later : List SyntaxError}
    {mark : Token} (isMark : mark.kind = .endOfInput)
    (h : c.attempts.filterMap Attempt.error? = error :: later) :
    ∀ body, c.ahead = body ++ [mark] → Markless body →
      ∃ before after t, FirstError c error before after t := by
  have ending : AtMark [mark] := atMark_cons isMark []
  fun_induction attempts c with
  | case1 c ended => cases h
  | case2 c more next ih =>
    intro body ahead markless
    cases upToMark markless isMark with
    | nothing hcomments =>
      obtain ⟨nothing, left⟩ := attempt_of_comments ahead hcomments ending
      have nothingLeft : next.2.attempts = [] := attempts_of_nil left
      rw [nothing, nothingLeft] at h
      cases h
    | @accepted comments word left stmt hcomments hword read =>
      rw [List.append_assoc, List.append_assoc] at ahead
      obtain ⟨-, accepted, rest⟩ := attempt_of_done ahead hcomments (read [])
      rw [accepted] at h
      obtain ⟨before, after, t, first⟩ :=
        ih h left rest (markless_append.mp (markless_append.mp markless).2).2
      obtain ⟨passed, first⟩ := first.behind_statement ahead hcomments (read [])
      exact ⟨passed, after, t, first⟩
    | @rejected comments passed left cause hcomments noComment goesOn failed =>
      rw [List.append_assoc, List.append_assoc] at ahead
      obtain ⟨-, stop, rejected, place, all⟩ :=
        attempt_of_failed ahead hcomments (noComment []) (goesOn []) (failed [])
      have here : next.1 = .rejected ⟨cause, stop⟩ := congrArg Prod.fst rejected
      rw [here] at h
      cases h
      obtain ⟨t, after, rest⟩ : ∃ t after, left ++ [mark] = t :: after := by
        cases left <;> exact ⟨_, _, rfl⟩
      have failed := failed []
      rw [rest] at failed place ahead
      obtain ⟨passed, first⟩ :=
        FirstError.of_failed ahead hcomments (rest ▸ noComment []) (rest ▸ goesOn []) failed place all
      exact ⟨passed, after, t, first⟩

end Cursor

/-- Tokens that end in their only end mark and are read without a diagnostic. -/
def WellFormed (tokens : List Token) : Prop :=
  (∃ body mark, tokens = body ++ [mark] ∧ (∀ t ∈ body, t.kind ≠ .endOfInput) ∧
    mark.kind = .endOfInput) ∧
  ∀ sink : Sink, (sink.parse tokens).2 = sink

theorem wellFormed_of_word {body : List Token} {statements : List Stmt} {mark : Token}
    (h : ProgramWord body statements) (isMark : mark.kind = .endOfInput) :
    WellFormed (body ++ [mark]) :=
  ⟨⟨body, mark, rfl, h.markless, isMark⟩,
    fun sink => congrArg Prod.snd (sink.parse_of_word h isMark)⟩

/-- The token that the first error blames, and its index. -/
theorem Cursor.FirstError.blames {c : Cursor} {error : SyntaxError} {before after : List Token}
    {t : Token} (h : FirstError c error before after t) (start : c.all = c.ahead) :
    error.blamed? = some t ∧ error.blamedIndex = before.length := by
  have whole : error.stop.all = before ++ error.stop.ahead := by
    rw [h.all, start, h.ahead, h.stop]
  have place := Cursor.position_of_behind whole
  constructor
  · exact SyntaxError.blamed?_of_ahead h.stop
  · rw [SyntaxError.blamedIndex, place, whole, h.stop, List.length_append, List.length_cons]
    omega

/-- The first error is as early as it can be: the tokens before the one that it blames are the start
of tokens that are read without a diagnostic, and those up to it are not. -/
theorem Sink.parse_blames_earliest (sink : Sink) (body : List Token) (mark : Token)
    (markless : ∀ t ∈ body, t.kind ≠ .endOfInput) (isMark : mark.kind = .endOfInput)
    (recorded : (sink.parse (body ++ [mark])).2.records ≠ sink.records) :
    ∃ (error : SyntaxError) (later : List SyntaxError) (before after : List Token) (t : Token),
      (Parse.ofTokens (body ++ [mark])).errors = error :: later ∧
      (sink.parse (body ++ [mark])).2.records =
        sink.records ++ ((error :: later).map SyntaxError.diagnostic).map sink.stamp ∧
      body ++ [mark] = before ++ t :: after ∧
      error.blamed? = some t ∧ error.blamedIndex = before.length ∧
      (∃ good, WellFormed good ∧ before <+: good) ∧
      ∀ good, WellFormed good → ¬ before ++ [t] <+: good := by
  cases errors : (Cursor.start (body ++ [mark])).attempts.filterMap Attempt.error? with
  | nil => exact absurd (records_parse_eq_iff.mpr errors) recorded
  | cons error later =>
    obtain ⟨before, after, t, first⟩ :=
      Cursor.exists_firstError (.start (body ++ [mark])) isMark errors body rfl markless
    obtain ⟨blamed, index⟩ := first.blames rfl
    obtain ⟨more, statements, program⟩ := first.completes
    refine ⟨error, later, before, after, t, errors, ?_, first.ahead, blamed, index, ?_, ?_⟩
    · simp [parse, pushAll, Parse.ofTokens, errors]
    · refine ⟨before ++ more ++ [mark], wellFormed_of_word program isMark, ?_⟩
      rw [List.append_assoc]
      exact List.prefix_append before (more ++ [mark])
    · intro good wellFormed starts
      obtain ⟨others, rfl⟩ := starts
      have clean := records_parse_eq_iff.mp (congrArg Sink.records (wellFormed.2 sink))
      exact first.fails (.start (before ++ [t] ++ others)) others (by simp [Cursor.start]) clean

/-- `new x int = (7 ]`, with a square bracket for the round one. -/
def unclosedTokens : List Token :=
  [.spelled .new "new" ⟨1, 1⟩, .spelled .identifier "x" ⟨1, 5⟩, .spelled .intType "int" ⟨1, 7⟩,
    .spelled .assign "=" ⟨1, 11⟩, .spelled .parenOpen "(" ⟨1, 13⟩,
    .spelled .intLiteral "7" ⟨1, 14⟩, .spelled .bracketClose "]" ⟨1, 16⟩]

theorem blamedIndex_unclosedTokens :
    (Parse.ofTokens (unclosedTokens ++ [.endMark ⟨1, 17⟩])).errors.map SyntaxError.blamedIndex =
      [6] := by
  decide +kernel

/-- The square bracket is blamed. A program may start with the tokens before it. -/
theorem Sink.parse_unclosedTokens :
    (∀ t ∈ unclosedTokens, t.kind ≠ .endOfInput) ∧
    ((Sink.empty none).parse (unclosedTokens ++ [.endMark ⟨1, 17⟩])).2.records ≠ [] ∧
    (∃ good, WellFormed good ∧ unclosedTokens.take 6 <+: good) ∧
    ∀ good, WellFormed good → ¬ unclosedTokens <+: good := by
  have markless : ∀ t ∈ unclosedTokens, t.kind ≠ .endOfInput := by decide
  have index := blamedIndex_unclosedTokens
  have recorded :
      ((Sink.empty none).parse (unclosedTokens ++ [.endMark ⟨1, 17⟩])).2.records ≠ [] := by
    intro clean
    have noErrors : (Parse.ofTokens (unclosedTokens ++ [.endMark ⟨1, 17⟩])).errors = [] :=
      records_parse_eq_iff.mp clean
    rw [noErrors] at index
    cases index
  obtain ⟨error, later, before, after, t, errors, -, split, -, place, completes, fails⟩ :=
    Sink.parse_blames_earliest (.empty none) unclosedTokens (.endMark ⟨1, 17⟩) markless rfl recorded
  rw [errors, List.map_cons] at index
  have six : before.length = 6 := place.symm.trans (List.cons.inj index).1
  have front : before = unclosedTokens.take 6 := by
    have taken : (before ++ t :: after).take 6 = before := List.take_left' six
    rw [← taken, ← split]
    rfl
  have whole : before ++ [t] = unclosedTokens := by
    have taken : (before ++ [t] ++ after).take 7 = before ++ [t] := List.take_left' (by simp [six])
    rw [← taken, ← List.append_cons, ← split]
    rfl
  exact ⟨markless, recorded, front ▸ completes, whole ▸ fails⟩

end Quill
