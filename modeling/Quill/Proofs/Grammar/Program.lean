import Quill.Compilation
import Quill.Proofs.Grammar.Attempt

/-!
Programs that are read without an error. They are the words of the grammar, and the statements that
are read are those that the word writes. An end mark may follow the tokens of the program; without
one the program ends with the list.
-/
namespace Quill

namespace Cursor

/-- An end mark behind a comment is the last token. -/
def MarkIsLast (body rest : List Token) : Prop :=
  ∀ t ∈ body.getLast?, t.kind = .comment → rest.tail = []

theorem MarkIsLast.of_append {front body rest : List Token} (h : MarkIsLast (front ++ body) rest) :
    MarkIsLast body rest := by
  intro t member
  exact h t (by rw [List.getLast?_append, Option.mem_def.mp member]; rfl)

theorem MarkIsLast.tail_eq_nil {comments rest : List Token} (h : MarkIsLast comments rest)
    (hcomments : ∀ t ∈ comments, t.kind = .comment) (mark : AtMark rest)
    (goesOn : ¬ AtMark (comments ++ rest)) : rest.tail = [] := by
  cases last : comments.getLast? with
  | none =>
    obtain rfl := List.getLast?_eq_none_iff.mp last
    exact absurd mark goesOn
  | some t => exact h t last (hcomments t (List.mem_of_getLast? last))

theorem atMark_nil : AtMark [] := by
  simp [AtMark]

theorem atMark_cons {mark : Token} (isMark : mark.kind = .endOfInput) (more : List Token) :
    AtMark (mark :: more) := by
  simpa [AtMark] using isMark

theorem atMark_toList {ending : Option Token} (mark : ∀ e ∈ ending, e.kind = .endOfInput) :
    AtMark ending.toList :=
  fun e member => mark e (by cases ending <;> exact member)

theorem markIsLast_toList (body : List Token) (ending : Option Token) :
    MarkIsLast body ending.toList :=
  fun _ _ _ => by cases ending <;> rfl

end Cursor

/-- Tokens without an end mark lie wholly in front of the first end mark of a list. -/
theorem split_of_atMark {body word rest left : List Token} (mark : Cursor.AtMark left)
    (hword : Markless word) (h : body ++ left = word ++ rest) :
    ∃ others, body = word ++ others ∧ rest = others ++ left := by
  rcases List.append_eq_append_iff.mp h with ⟨beyond, hbeyond, hleft⟩ | ⟨others, hbody, hrest⟩
  · cases beyond with
    | nil => exact ⟨[], by simpa using hbeyond.symm, by simpa using hleft.symm⟩
    | cons t beyond =>
      have kind := mark t (by simp [hleft])
      exact absurd kind (hword t (by simp [hbeyond]))
  · exact ⟨others, hbody, hrest⟩

/-- Tokens without an end mark in front of one: there are none. -/
theorem eq_nil_of_atMark {body rest : List Token} (markless : Markless body)
    (h : Cursor.AtMark (body ++ rest)) : body = [] := by
  cases body with
  | nil => rfl
  | cons t body => exact absurd (h t rfl) (markless t (by simp))

/-- No end mark is an operator. -/
theorem Cursor.AtMark.stops {tokens : List Token} (h : AtMark tokens) : Reader.Stops tokens := by
  cases tokens with
  | nil => simp [Reader.Stops]
  | cons e more => exact Reader.stops_cons (by rw [h e rfl]; rfl)

/-- No program starts with an operator, and neither does what follows one. -/
theorem ProgramWord.stops {word rest : List Token} {statements : List Stmt}
    (h : ProgramWord word statements) (stops : Reader.Stops rest) :
    Reader.Stops (word ++ rest) := by
  have comment : ∀ {t : Token} {more : List Token}, t.kind = .comment → Reader.Stops (t :: more) :=
    fun kind => Reader.stops_cons (by rw [kind]; rfl)
  cases h with
  | comments hcomments =>
    cases word with
    | nil => exact stops
    | cons t more => exact comment (hcomments t (by simp))
  | @statement comments word more stmt statements hcomments hword hmore =>
    cases comments with
    | nil =>
      obtain ⟨t, others, rfl, kind | kind | kind⟩ := hword.exists_cons <;>
        exact Reader.stops_cons (by rw [kind]; rfl)
    | cons t others => exact comment (hcomments t (by simp))

namespace Cursor

/-- Attempts without an error have taken a word of the grammar, up to the first end mark. -/
theorem attempts_word_upTo (c : Cursor) :
    ∀ body rest : List Token, c.ahead = body ++ rest → Markless body → AtMark rest →
      MarkIsLast body rest → c.attempts.filterMap Attempt.error? = [] →
      ProgramWord body (c.attempts.filterMap Attempt.statement?) := by
  refine attempts_induction (motive := fun c attempts => ∀ body rest : List Token,
    c.ahead = body ++ rest → Markless body → AtMark rest → MarkIsLast body rest →
      attempts.filterMap Attempt.error? = [] →
      ProgramWord body (attempts.filterMap Attempt.statement?)) ?atMark ?step c
  case atMark =>
    intro c atMark body rest ahead markless _ _ _
    rw [ahead] at atMark
    rw [eq_nil_of_atMark markless atMark]
    exact .comments (by simp)
  case step =>
    intro c attempt next later notMark taken ih body rest ahead markless mark isLast clean
    cases taken with
    | accepted hcomments hword taken all =>
      have front := markless_append.mpr ⟨markless_of_comments hcomments, hword.markless⟩
      obtain ⟨others, rfl, left⟩ := split_of_atMark mark front (ahead.symm.trans taken)
      have back := (markless_append.mp markless).2
      exact .statement hcomments hword (ih others rest left back mark isLast.of_append clean)
    | rejected => cases clean
    | @nothing comments ending _ hcomments atMark taken left all =>
      have front := markless_of_comments hcomments
      obtain ⟨others, rfl, same⟩ := split_of_atMark mark front (ahead.symm.trans taken)
      have back := (markless_append.mp markless).2
      subst same
      obtain rfl := eq_nil_of_atMark back atMark
      rw [List.append_nil] at isLast
      rw [taken] at notMark
      have nothingLeft := left.trans (isLast.tail_eq_nil hcomments mark notMark)
      exact .after_comments hcomments
        (ih [] [] nothingLeft (by simp) atMark_nil (by simp [MarkIsLast]) clean)

theorem attempts_word (c : Cursor) (body : List Token) (ending : Option Token)
    (ahead : c.ahead = body ++ ending.toList) (markless : Markless body)
    (mark : ∀ e ∈ ending, e.kind = .endOfInput)
    (clean : c.attempts.filterMap Attempt.error? = []) :
    ProgramWord body (c.attempts.filterMap Attempt.statement?) :=
  c.attempts_word_upTo body _ ahead markless (atMark_toList mark) (markIsLast_toList body ending)
    clean

/-- At the end there is nothing to attempt. -/
theorem attempts_of_atMark {c : Cursor} (h : AtMark c.ahead) : c.attempts = [] := by
  rw [attempts, if_pos (atEnd_eq_true_iff.mpr h)]

theorem attempts_of_nil {c : Cursor} (h : c.ahead = []) : c.attempts = [] :=
  attempts_of_atMark (h ▸ atMark_nil)

theorem attempts_of_not_atMark {c : Cursor} (h : ¬ AtMark c.ahead) :
    c.attempts = c.attempt.1 :: c.attempt.2.attempts := by
  rw [attempts, if_neg (fun ended => h (atEnd_eq_true_iff.mp ended))]

theorem ahead_skipComments_eq {c : Cursor} {comments rest : List Token}
    (ahead : c.ahead = comments ++ rest) (hcomments : ∀ t ∈ comments, t.kind = .comment)
    (front : ∀ t ∈ rest.head?, t.kind ≠ .comment) : c.skipComments.ahead = rest := by
  show c.ahead.dropWhile (·.kind = .comment) = rest
  rw [ahead, List.dropWhile_append_of_pos (by simpa using hcomments)]
  cases rest with
  | nil => rfl
  | cons t more => exact List.dropWhile_cons_of_neg (by simpa using front t rfl)

/-- Comments are no end. -/
theorem not_atMark_append {comments rest : List Token}
    (hcomments : ∀ t ∈ comments, t.kind = .comment) (h : ¬ AtMark rest) :
    ¬ AtMark (comments ++ rest) := by
  intro mark
  obtain rfl := eq_nil_of_atMark (markless_of_comments hcomments) mark
  exact h mark

/-- An attempt at comments with no statement behind them. -/
theorem attempt_of_comments {c : Cursor} {comments ending : List Token}
    (ahead : c.ahead = comments ++ ending) (hcomments : ∀ t ∈ comments, t.kind = .comment)
    (mark : AtMark ending) : c.attempt.1 = .nothing ∧ c.attempt.2.ahead = ending.tail := by
  have front : ∀ t ∈ ending.head?, t.kind ≠ .comment := by
    intro t member
    simp [mark t member]
  have passed := ahead_skipComments_eq ahead hcomments front
  have ended : c.skipComments.atEnd = true := by
    rw [atEnd_eq_true_iff, passed]
    exact mark
  simp only [attempt, ended, if_true]
  exact ⟨trivial, congrArg List.tail passed⟩

/-- An attempt behind comments goes where the reader of statements goes. -/
theorem exists_attempt_eq {c : Cursor} {comments front : List Token}
    (ahead : c.ahead = comments ++ front) (hcomments : ∀ t ∈ comments, t.kind = .comment)
    (noComment : ∀ t ∈ front.head?, t.kind ≠ .comment) (goesOn : ¬ AtMark front) :
    ∃ stop : Cursor, stop.ahead = (Reader.statement front).rest ∧ stop.all = c.all ∧
      (∀ stmt rest, Reader.statement front = .done stmt rest →
        c.attempt = (.accepted stmt, stop)) ∧
      ∀ cause rest, Reader.statement front = .failed cause rest →
        c.attempt = (.rejected ⟨cause, stop⟩, stop.advance) := by
  have passed := ahead_skipComments_eq ahead hcomments noComment
  have notEnded : ¬ c.skipComments.atEnd = true := by
    rwa [atEnd_eq_true_iff, passed]
  obtain ⟨stop, all, left, step⟩ := exists_attempt notEnded
  rw [passed] at left step
  refine ⟨stop, left, all, fun stmt rest read => ?_, fun cause rest failed => ?_⟩
  · rw [step, read]
  · rw [step, failed]

/-- An attempt behind comments at tokens that the reader of statements takes one from. -/
theorem attempt_of_done {c : Cursor} {comments front rest : List Token} {stmt : Stmt}
    (ahead : c.ahead = comments ++ front) (hcomments : ∀ t ∈ comments, t.kind = .comment)
    (read : Reader.statement front = .done stmt rest) :
    ¬ AtMark c.ahead ∧ c.attempt.1 = .accepted stmt ∧ c.attempt.2.ahead = rest := by
  obtain ⟨word, rfl, hword⟩ := Reader.statement_word _ _ _ read
  obtain ⟨t, more, rfl, kind⟩ := hword.exists_cons
  have noComment : ∀ first ∈ (t :: more ++ rest).head?, first.kind ≠ .comment := by
    intro first member
    cases member
    rcases kind with kind | kind | kind <;> simp [kind]
  have goesOn : ¬ AtMark (t :: more ++ rest) := by
    intro mark
    have mark := mark t rfl
    rcases kind with kind | kind | kind <;> simp [kind] at mark
  obtain ⟨stop, left, -, accepts, -⟩ := exists_attempt_eq ahead hcomments noComment goesOn
  rw [accepts stmt rest read]
  rw [read] at left
  exact ⟨ahead ▸ not_atMark_append hcomments goesOn, rfl, left⟩

/-- An attempt at a statement behind comments. -/
theorem attempt_of_statement {c : Cursor} {comments word rest : List Token} {stmt : Stmt}
    (ahead : c.ahead = comments ++ (word ++ rest)) (hcomments : ∀ t ∈ comments, t.kind = .comment)
    (hword : StatementWord word stmt) (stops : Reader.Stops rest) :
    ¬ AtMark c.ahead ∧ c.attempt.1 = .accepted stmt ∧ c.attempt.2.ahead = rest :=
  attempt_of_done ahead hcomments (hword.read stops)

/-- An attempt does not depend on the comments that it passes. -/
theorem attempt_congr {c d : Cursor} (h : c.skipComments = d.skipComments) :
    c.attempt = d.attempt := by
  simp only [attempt, h]

/-- The attempts behind a word of the grammar are those at the tokens after it. But an end mark that
comments stand in front of is passed with them, so behind a comment it must be the last token. -/
theorem exists_attempts_behind {word rest : List Token} {statements : List Stmt}
    (h : ProgramWord word statements) (stops : Reader.Stops rest)
    (isLast : AtMark rest → MarkIsLast word rest) (c : Cursor) (ahead : c.ahead = word ++ rest) :
    ∃ d : Cursor, d.ahead = rest ∧ d.all = c.all ∧
      c.attempts.filterMap Attempt.error? = d.attempts.filterMap Attempt.error? ∧
      c.attempts.filterMap Attempt.statement? =
        statements ++ d.attempts.filterMap Attempt.statement? := by
  induction h generalizing c with
  | @comments word hcomments =>
    let d := c.moveTo rest (ahead ▸ List.suffix_append word rest)
    refine ⟨d, rfl, rfl, ?_⟩
    by_cases mark : AtMark rest
    · have nothingLeft : d.attempts = [] := attempts_of_atMark mark
      by_cases ended : AtMark c.ahead
      · simp [attempts_of_atMark ended, nothingLeft]
      · obtain ⟨nothing, left⟩ := attempt_of_comments ahead hcomments mark
        have last := left.trans ((isLast mark).tail_eq_nil hcomments mark (ahead ▸ ended))
        rw [attempts_of_not_atMark ended, nothing, attempts_of_nil last, nothingLeft]
        exact ⟨rfl, rfl⟩
    · have passed : c.skipComments = d.skipComments := by
        refine eq_of_ahead rfl ?_
        show c.ahead.dropWhile (·.kind = .comment) = rest.dropWhile (·.kind = .comment)
        rw [ahead, List.dropWhile_append_of_pos (by simpa using hcomments)]
      have goesOn : ¬ AtMark c.ahead := ahead ▸ not_atMark_append hcomments mark
      rw [attempts_of_not_atMark goesOn, attempts_of_not_atMark (c := d) mark,
        attempt_congr passed]
      exact ⟨rfl, rfl⟩
  | @statement comments word more stmt statements hcomments hword hmore ih =>
    rw [List.append_assoc, List.append_assoc] at ahead
    obtain ⟨goesOn, accepted, left⟩ :=
      attempt_of_statement ahead hcomments hword (hmore.stops stops)
    obtain ⟨d, dAhead, dAll, errors, read⟩ := ih (fun mark => (isLast mark).of_append) _ left
    refine ⟨d, dAhead, dAll.trans c.attempt_step.all, ?_, ?_⟩
    · rw [attempts_of_not_atMark goesOn, accepted]
      exact errors
    · rw [attempts_of_not_atMark goesOn, accepted]
      exact congrArg (stmt :: ·) read

/-- The attempts at a word of the grammar give its statements, whatever follows the end mark behind
it. -/
theorem attempts_of_word_upTo {word rest : List Token} {statements : List Stmt}
    (h : ProgramWord word statements) (mark : AtMark rest) (isLast : MarkIsLast word rest)
    (c : Cursor) (ahead : c.ahead = word ++ rest) :
    c.attempts.filterMap Attempt.error? = [] ∧
      c.attempts.filterMap Attempt.statement? = statements := by
  obtain ⟨d, left, -, errors, read⟩ :=
    exists_attempts_behind h mark.stops (fun _ => isLast) c ahead
  have nothingLeft : d.attempts = [] := attempts_of_atMark (left ▸ mark)
  rw [nothingLeft] at errors read
  exact ⟨errors, read.trans (List.append_nil _)⟩

theorem attempts_of_word {word : List Token} {statements : List Stmt}
    (h : ProgramWord word statements) {ending : Option Token}
    (mark : ∀ e ∈ ending, e.kind = .endOfInput) (c : Cursor)
    (ahead : c.ahead = word ++ ending.toList) :
    c.attempts.filterMap Attempt.error? = [] ∧
      c.attempts.filterMap Attempt.statement? = statements :=
  attempts_of_word_upTo h (atMark_toList mark) (markIsLast_toList word ending) c ahead

end Cursor

theorem Sink.records_parse_eq_iff {sink : Sink} {tokens : List Token} :
    (sink.parse tokens).2.records = sink.records ↔
      (Cursor.start tokens).attempts.filterMap Attempt.error? = [] := by
  simp [parse, pushAll, Parse.ofTokens]

/-- A word of the grammar and an end mark are read without a diagnostic. -/
theorem Sink.parse_of_word (sink : Sink) {word : List Token} {statements : List Stmt}
    {mark : Token} (h : ProgramWord word statements) (isMark : mark.kind = .endOfInput) :
    sink.parse (word ++ [mark]) = (.ofStatements statements, sink) := by
  have ending : ∀ e ∈ some mark, e.kind = .endOfInput := by simpa using isMark
  obtain ⟨clean, read⟩ := Cursor.attempts_of_word h ending (.start (word ++ [mark])) rfl
  simp [parse, Parse.ofTokens, clean, read, pushAll_nil]

/-- The parser accepts exactly the words of the grammar, whatever the sink holds, and gives the
statements of the word. There are no others that the word writes. -/
theorem Sink.parse_accepts_iff_word (sink : Sink) (body : List Token) (ending : Option Token)
    (markless : ∀ t ∈ body, t.kind ≠ .endOfInput) (mark : ∀ e ∈ ending, e.kind = .endOfInput) :
    ((sink.parse (body ++ ending.toList)).2.records = sink.records ↔
      ∃ statements, ProgramWord body statements) ∧
    ∀ statements, ProgramWord body statements →
      (sink.parse (body ++ ending.toList)).1.statements = statements := by
  have clean_iff : (sink.parse (body ++ ending.toList)).2.records = sink.records ↔
      (Cursor.start (body ++ ending.toList)).attempts.filterMap Attempt.error? = [] := by
    simp [Sink.parse, Sink.pushAll, Parse.ofTokens]
  constructor
  · rw [clean_iff]
    constructor
    · intro clean
      exact ⟨_, Cursor.attempts_word (.start _) body ending rfl markless mark clean⟩
    · intro h
      obtain ⟨statements, h⟩ := h
      exact (Cursor.attempts_of_word h mark (.start _) rfl).1
  · intro statements h
    exact (Cursor.attempts_of_word h mark (.start _) rfl).2

/-- A comment and `new x int = 7 - (y) * 2`. -/
def chainTokens : List Token :=
  [.spelled .comment "//" ⟨1, 1⟩, .spelled .new "new" ⟨2, 1⟩, .spelled .identifier "x" ⟨2, 5⟩,
    .spelled .intType "int" ⟨2, 7⟩, .spelled .assign "=" ⟨2, 11⟩, .spelled .intLiteral "7" ⟨2, 13⟩,
    .spelled .minus "-" ⟨2, 15⟩, .spelled .parenOpen "(" ⟨2, 17⟩, .spelled .identifier "y" ⟨2, 18⟩,
    .spelled .parenClose ")" ⟨2, 19⟩, .spelled .star "*" ⟨2, 21⟩, .spelled .intLiteral "2" ⟨2, 23⟩]

/-- The value groups to the right, `7 - (y * 2)`. -/
def chainValue : Expr :=
  .binary (.literal (.integer 7) ⟨2, 13⟩) .subtract
    (.binary (.identifier "y" ⟨2, 18⟩) .multiply (.literal (.integer 2) ⟨2, 23⟩) ⟨2, 21⟩) ⟨2, 15⟩

theorem programWord_chainTokens :
    ProgramWord chainTokens [.scalar "x" .int chainValue ⟨2, 1⟩] := by
  have two : ExpressionWord [.spelled .intLiteral "2" ⟨2, 23⟩] (.literal (.integer 2) ⟨2, 23⟩) :=
    .operand (.literal (.integer rfl (.digit (by decide)) (by decide) (by decide)))
  have seven : OperandWord [.spelled .intLiteral "7" ⟨2, 13⟩] (.literal (.integer 7) ⟨2, 13⟩) :=
    .literal (.integer rfl (.digit (by decide)) (by decide) (by decide))
  have y : OperandWord ((chainTokens.drop 7).take 3) (.identifier "y" ⟨2, 18⟩) :=
    @OperandWord.parens _ _ [_] _ rfl (.operand (.identifier rfl)) rfl
  have product : ExpressionWord (chainTokens.drop 7)
      (.binary (.identifier "y" ⟨2, 18⟩) .multiply (.literal (.integer 2) ⟨2, 23⟩) ⟨2, 21⟩) :=
    .binary y rfl two
  have value : ExpressionWord (chainTokens.drop 5) chainValue := .binary seven rfl product
  have statement : StatementWord (chainTokens.drop 1) (.scalar "x" .int chainValue ⟨2, 1⟩) :=
    .scalar rfl rfl rfl rfl value
  exact @ProgramWord.statement (chainTokens.take 1) _ [] _ _ (by decide) statement
    (.comments (by simp))

/-- The chain is read with its end mark, and to the right. -/
theorem Sink.parse_chainTokens :
    (∀ t ∈ chainTokens, t.kind ≠ .endOfInput) ∧ (Token.endMark ⟨2, 24⟩).kind = .endOfInput ∧
    ((Sink.empty none).parse (chainTokens ++ [.endMark ⟨2, 24⟩])).2.records = [] ∧
    ((Sink.empty none).parse (chainTokens ++ [.endMark ⟨2, 24⟩])).1.statements =
      [.scalar "x" .int chainValue ⟨2, 1⟩] := by
  have markless : ∀ t ∈ chainTokens, t.kind ≠ .endOfInput := by decide
  have accepts := Sink.parse_accepts_iff_word (.empty none) chainTokens (some (.endMark ⟨2, 24⟩))
    markless (by rintro _ ⟨⟩; rfl)
  exact ⟨markless, rfl, accepts.1.mpr ⟨_, programWord_chainTokens⟩,
    accepts.2 _ programWord_chainTokens⟩

end Quill
