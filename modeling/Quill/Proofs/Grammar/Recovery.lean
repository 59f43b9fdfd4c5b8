import Quill.Proofs.Grammar.Program

/-!
Recovery from syntax errors. Each attempt has a stretch of the token list to itself: the tokens of
the statement that it takes, or the token that its error blames, lie between the cursor before it
and the cursor after it (`Cursor.Step.between`).
-/
namespace Quill

/-- The index of the token that an error blames: the current one's, or the last one's when the list
has run out. -/
def SyntaxError.blamedIndex (error : SyntaxError) : Nat :=
  min error.stop.position (error.stop.all.length - 1)

/-- An error blames the token that reading stops at. -/
theorem SyntaxError.blamed?_of_ahead {error : SyntaxError} {t : Token} {rest : List Token}
    (ahead : error.stop.ahead = t :: rest) : error.blamed? = some t := by
  simp [blamed?, Cursor.currentOrLast?, Cursor.current?, ahead]

/-- The diagnostics that an attempt adds to a sink. -/
def Attempt.diagnostics (attempt : Attempt) : List Diagnostic :=
  attempt.error?.toList.map SyntaxError.diagnostic

/-- A stretch of a token list: the tokens from one index up to another one. -/
structure Slice where
  first : Nat
  stop : Nat
  deriving DecidableEq, Repr

namespace Slice

def tokens (slice : Slice) (all : List Token) : List Token :=
  all.extract slice.first slice.stop

theorem tokens_append (before word after : List Token) :
    tokens ⟨before.length, before.length + word.length⟩ (before ++ word ++ after) = word := by
  simp [tokens, List.extract_eq_take_drop]

end Slice

/-- What an attempt takes or blames lies between two places of the list. -/
def Attempt.Between (all : List Token) (start stop : Nat) : Attempt → Prop
  | accepted stmt =>
    ∃ slice : Slice, StatementWord (slice.tokens all) stmt ∧ start ≤ slice.first ∧
      slice.stop ≤ stop
  | rejected error => error.stop.all = all ∧ start ≤ error.blamedIndex ∧ error.blamedIndex < stop
  | nothing => True

namespace Cursor

theorem position_of_behind {c : Cursor} {behind : List Token} (h : c.all = behind ++ c.ahead) :
    c.position = behind.length := by
  rw [position, h]
  simp

theorem exists_behind (c : Cursor) :
    ∃ behind, c.all = behind ++ c.ahead ∧ c.position = behind.length := by
  obtain ⟨behind, whole⟩ := c.suffix
  exact ⟨behind, whole.symm, position_of_behind whole.symm⟩

theorem position_advance (c : Cursor) :
    c.advance.position = if c.ahead = [] then c.position else c.position + 1 := by
  obtain ⟨behind, whole, place⟩ := c.exists_behind
  have moved : c.advance.position = c.all.length - c.ahead.tail.length := rfl
  rw [moved, place, whole]
  cases c.ahead with
  | nil => simp
  | cons t more => simp; omega

theorem Step.between {c next : Cursor} {attempt : Attempt} (h : Step c attempt next) :
    attempt.Between c.all c.position next.position ∧ c.position ≤ next.position ∧
      next.all = c.all := by
  obtain ⟨behind, whole, place⟩ := c.exists_behind
  cases h with
  | @accepted comments word stmt _ hcomments hword ahead all =>
    have split : c.all = (behind ++ comments) ++ word ++ next.ahead := by
      rw [whole, ahead]
      simp
    have moved : next.position = (behind ++ comments).length + word.length := by
      rw [position_of_behind (all.trans split), List.length_append]
    refine ⟨⟨⟨(behind ++ comments).length, next.position⟩, ?_, ?_, Nat.le_refl _⟩, ?_, all⟩
    · rw [moved, split, Slice.tokens_append]
      exact hword
    · simp [place]
    · rw [place, moved, List.length_append]
      omega
  | @rejected comments passed cause stop hcomments notMark failed ahead all =>
    have split : c.all = behind ++ comments ++ passed ++ stop.ahead := by
      rw [whole, ahead]
      simp
    have stopped : stop.position = (behind ++ comments ++ passed).length :=
      position_of_behind (all.trans split)
    have some_left : 0 < (passed ++ stop.ahead).length := by
      rw [List.length_pos_iff]
      intro empty
      exact notMark (by simp [empty, AtMark])
    have size : c.all.length = stop.position + stop.ahead.length := by
      rw [stopped, split, List.length_append]
    have moved := position_advance stop
    simp only [List.length_append] at stopped some_left
    refine ⟨⟨all, ?_, ?_⟩, ?_, all⟩
    · simp only [SyntaxError.blamedIndex, all]
      omega
    · simp only [SyntaxError.blamedIndex, all]
      split at moved
      · next empty =>
        simp only [empty, List.length_nil] at size some_left
        omega
      · omega
    · split at moved <;> omega
  | nothing hcomments mark ahead left all =>
    refine ⟨trivial, ?_, all⟩
    have fewer : next.ahead.length ≤ c.ahead.length := by
      rw [left, ahead, List.length_tail, List.length_append]
      omega
    rw [position, position, all]
    omega

end Cursor

theorem SyntaxError.getElem?_blamedIndex (error : SyntaxError) :
    error.stop.all[error.blamedIndex]? = error.blamed? := by
  obtain ⟨behind, whole, place⟩ := error.stop.exists_behind
  unfold blamedIndex blamed? Cursor.currentOrLast? Cursor.current?
  rw [place, whole]
  cases error.stop.ahead with
  | nil => simp [List.getLast?_eq_getElem?]
  | cons t more =>
    have inside : min behind.length ((behind ++ t :: more).length - 1) = behind.length := by
      simp
    rw [inside]
    simp

/-- An account of the attempts of a run over a token list: the slice of each statement, in order,
and the token of each error. -/
structure Account (all : List Token) (attempts : List Attempt) (taken : List (Slice × Stmt)) :
    Prop where
  statements : taken.map (·.2) = attempts.filterMap Attempt.statement?
  words : ∀ entry ∈ taken, StatementWord (entry.1.tokens all) entry.2
  within : ∀ entry ∈ taken, entry.1.stop ≤ all.length
  ordered : taken.Pairwise fun entry later => entry.1.stop ≤ later.1.first
  blames : ∀ error ∈ attempts.filterMap Attempt.error?,
    error.blamedIndex < all.length ∧ all[error.blamedIndex]? = error.blamed?
  increasing : (attempts.filterMap Attempt.error?).Pairwise fun error later =>
    error.blamedIndex < later.blamedIndex
  apart : ∀ entry ∈ taken, ∀ error ∈ attempts.filterMap Attempt.error?,
    error.blamedIndex < entry.1.first ∨ entry.1.stop ≤ error.blamedIndex

namespace Account

variable {all : List Token} {attempts : List Attempt} {taken : List (Slice × Stmt)} {place : Nat}

/-- Everything in an account lies behind a place of the list. -/
structure From (place : Nat) (attempts : List Attempt) (taken : List (Slice × Stmt)) : Prop where
  taken_from : ∀ entry ∈ taken, place ≤ entry.1.first
  blamed_from : ∀ error ∈ attempts.filterMap Attempt.error?, place ≤ error.blamedIndex

theorem nil : Account all [] [] := by
  constructor <;> simp

theorem accepted {slice : Slice} {stmt : Stmt} (account : Account all attempts taken)
    (later : From place attempts taken) (word : StatementWord (slice.tokens all) stmt)
    (stop : slice.stop ≤ place) (within : place ≤ all.length) :
    Account all (.accepted stmt :: attempts) ((slice, stmt) :: taken) where
  statements := congrArg (stmt :: ·) account.statements
  words := by
    intro entry member
    rcases List.mem_cons.mp member with rfl | member
    · exact word
    · exact account.words entry member
  within := by
    intro entry member
    rcases List.mem_cons.mp member with rfl | member
    · exact Nat.le_trans stop within
    · exact account.within entry member
  ordered := by
    refine List.pairwise_cons.mpr ⟨fun entry member => ?_, account.ordered⟩
    exact Nat.le_trans stop (later.taken_from entry member)
  blames := account.blames
  increasing := account.increasing
  apart := by
    intro entry member error blamed
    rcases List.mem_cons.mp member with rfl | member
    · exact .inr (Nat.le_trans stop (later.blamed_from error blamed))
    · exact account.apart entry member error blamed

theorem rejected {error : SyntaxError} (account : Account all attempts taken)
    (later : From place attempts taken) (list : error.stop.all = all)
    (stop : error.blamedIndex < place) (within : place ≤ all.length) :
    Account all (.rejected error :: attempts) taken where
  statements := account.statements
  words := account.words
  within := account.within
  ordered := account.ordered
  blames := by
    intro other member
    rcases List.mem_cons.mp member with rfl | member
    · exact ⟨Nat.lt_of_lt_of_le stop within, list ▸ other.getElem?_blamedIndex⟩
    · exact account.blames other member
  increasing := by
    refine List.pairwise_cons.mpr ⟨fun other member => ?_, account.increasing⟩
    exact Nat.lt_of_lt_of_le stop (later.blamed_from other member)
  apart := by
    intro entry member other blamed
    rcases List.mem_cons.mp blamed with rfl | blamed
    · exact .inl (Nat.lt_of_lt_of_le stop (later.taken_from entry member))
    · exact account.apart entry member other blamed

theorem nothing (account : Account all attempts taken) :
    Account all (.nothing :: attempts) taken :=
  ⟨account.statements, account.words, account.within, account.ordered, account.blames,
    account.increasing, account.apart⟩

end Account

/-- Every run has an account, which starts where the run does. -/
theorem Cursor.exists_account (c : Cursor) :
    ∃ taken, Account c.all c.attempts taken ∧ Account.From c.position c.attempts taken := by
  refine attempts_induction (motive := fun c attempts => ∃ taken, Account c.all attempts taken ∧
    Account.From c.position attempts taken) ?atMark ?step c
  case atMark =>
    intro c atMark
    exact ⟨[], .nil, by simp, by simp⟩
  case step =>
    intro c attempt next later notMark taken h
    obtain ⟨slices, account, after⟩ := h
    obtain ⟨between, forward, all⟩ := taken.between
    have within : next.position ≤ c.all.length := by
      rw [position, all]
      omega
    rw [all] at account
    cases attempt with
    | accepted stmt =>
      obtain ⟨slice, word, start, stop⟩ := between
      refine ⟨(slice, stmt) :: slices, account.accepted after word stop within, ?_, ?_⟩
      · intro entry member
        rcases List.mem_cons.mp member with rfl | member
        · exact start
        · exact Nat.le_trans forward (after.taken_from entry member)
      · exact fun error member => Nat.le_trans forward (after.blamed_from error member)
    | rejected error =>
      obtain ⟨list, start, stop⟩ := between
      refine ⟨slices, account.rejected after list stop within, ?_, ?_⟩
      · exact fun entry member => Nat.le_trans forward (after.taken_from entry member)
      · intro other member
        rcases List.mem_cons.mp member with rfl | member
        · exact start
        · exact Nat.le_trans forward (after.blamed_from other member)
    | nothing =>
      refine ⟨slices, account.nothing, ?_, ?_⟩
      · exact fun entry member => Nat.le_trans forward (after.taken_from entry member)
      · exact fun error member => Nat.le_trans forward (after.blamed_from error member)

/-- Each statement of a program is written by tokens that follow each other in the list. -/
theorem Parse.exists_word (tokens : List Token) :
    ∀ stmt ∈ (ofTokens tokens).program.statements,
      ∃ word, StatementWord word stmt ∧ word <:+: tokens := by
  intro stmt member
  obtain ⟨taken, account, -⟩ := (Cursor.start tokens).exists_account
  have among : stmt ∈ taken.map (·.2) := account.statements ▸ member
  obtain ⟨entry, inside, rfl⟩ := List.mem_map.mp among
  refine ⟨_, account.words entry inside, ?_⟩
  rw [Slice.tokens, List.extract_eq_take_drop]
  exact (List.take_prefix _ _).isInfix.trans (List.drop_suffix _ _).isInfix

theorem SyntaxError.kind_diagnostic (error : SyntaxError) : error.diagnostic.kind = .syntactic := by
  unfold diagnostic
  split <;> rfl

theorem Attempt.flatMap_diagnostics (attempts : List Attempt) :
    attempts.flatMap diagnostics = (attempts.filterMap error?).map SyntaxError.diagnostic := by
  induction attempts with
  | nil => rfl
  | cons attempt later ih =>
    rw [List.flatMap_cons, ih, diagnostics, List.filterMap_cons]
    cases attempt.error? <;> rfl

/-- Reading in terms of attempts. -/
theorem Sink.parse_eq (sink : Sink) (tokens : List Token) :
    sink.parse tokens =
      (.ofStatements ((Cursor.start tokens).attempts.filterMap Attempt.statement?),
        sink.pushAll ((Cursor.start tokens).attempts.flatMap Attempt.diagnostics)) := by
  rw [Attempt.flatMap_diagnostics]
  rfl

/-- Nothing but comments lies ahead, up to an end mark or the end of the list. -/
def Cursor.OnlyComments (c : Cursor) : Prop :=
  ∃ comments ending, (∀ t ∈ comments, t.kind = .comment) ∧ AtMark ending ∧
    c.ahead = comments ++ ending

theorem Cursor.atEnd_skipComments_iff {c : Cursor} :
    c.skipComments.atEnd = true ↔ c.OnlyComments := by
  rw [atEnd_eq_true_iff]
  constructor
  · intro mark
    obtain ⟨comments, hcomments, ahead⟩ := c.ahead_skipComments
    exact ⟨comments, c.skipComments.ahead, hcomments, mark, ahead⟩
  · intro h
    obtain ⟨comments, ending, hcomments, mark, ahead⟩ := h
    rw [ahead_skipComments_eq ahead hcomments fun t member => by simp [mark t member]]
    exact mark

/-- An attempt that takes a statement has no error, and one that takes none has one, unless only
comments lie ahead. -/
theorem Cursor.diagnostics_attempt (c : Cursor) :
    (c.attempt.1.statement?.isSome → c.attempt.1.diagnostics = []) ∧
    (c.attempt.1.statement? = none → c.OnlyComments → c.attempt.1.diagnostics = []) ∧
    (c.attempt.1.statement? = none → ¬ c.OnlyComments →
      ∃ d, c.attempt.1.diagnostics = [d] ∧ d.kind = .syntactic) := by
  rw [← atEnd_skipComments_iff]
  unfold attempt
  dsimp only
  split
  · next ended => simp [Attempt.statement?, Attempt.diagnostics, Attempt.error?, ended]
  · next more =>
    split
    · next read => simp [Attempt.statement?, Attempt.diagnostics, Attempt.error?]
    · next failed =>
      simp [Attempt.statement?, Attempt.diagnostics, Attempt.error?, more,
        SyntaxError.kind_diagnostic]

/-- Recovery loses and invents nothing. Attempts have the errors that they should, an error a token
of its own behind those of the errors before it, and a statement a slice of its own, which holds no
end mark and no token that is blamed. -/
theorem Sink.parse_accounts_for_tokens (sink : Sink) (tokens : List Token) :
    let attempts := (Cursor.start tokens).attempts
    (sink.parse tokens).2.records =
      sink.records ++ (attempts.flatMap Attempt.diagnostics).map sink.stamp ∧
    (∀ c : Cursor, (c.attempt.1.statement?.isSome → c.attempt.1.diagnostics = []) ∧
      (c.attempt.1.statement? = none → c.OnlyComments → c.attempt.1.diagnostics = []) ∧
      (c.attempt.1.statement? = none → ¬ c.OnlyComments →
        ∃ d, c.attempt.1.diagnostics = [d] ∧ d.kind = .syntactic)) ∧
    ∃ taken, Account tokens attempts taken ∧
      taken.map (·.2) = (sink.parse tokens).1.statements ∧
      ∀ entry ∈ taken, ∀ t ∈ entry.1.tokens tokens, t.kind ≠ .endOfInput := by
  refine ⟨?_, Cursor.diagnostics_attempt, ?_⟩
  · rw [Attempt.flatMap_diagnostics]
    rfl
  · obtain ⟨taken, account, -⟩ := (Cursor.start tokens).exists_account
    exact ⟨taken, account, account.statements, fun entry member =>
      (account.words entry member).markless⟩

end Quill
