import Quill.Proofs.Grammar.Recovery
import Quill.Proofs.Grammar.StatementWalk

/-!
Reading ends because it moves on. Programs are read by an index here, with a number of calls to nest
and no measure that would bound them; nothing else makes the reading stop. It stops for every token
list: each pass of the main loop ends further on than it started, whatever it gave, so there are no
more passes than tokens, and the loop is left at an end mark or at the end of the list
(`Walk.passes_end`).
-/
namespace Quill

namespace Walk

/-- Passes the comments ahead. Each of them is one round of a loop. -/
def skipComments : Nat → Walk Unit
  | 0 => spent
  | calls + 1 => do
    if ← consume .comment then skipComments calls else pure ()

/-- Passes comments and reads a statement, if an end mark or nothing is not all that follows. -/
def attempt (calls : Nat) : Walk (Option Stmt) := do
  skipComments calls
  if (← current?).all (·.kind = .endOfInput) then pure none
  else some <$> statement calls

end Walk

/-- A pass of the main loop: where it starts, what the attempt at a statement gives, and where the
pass ends. -/
structure Pass where
  start : Nat
  result : Except SyntaxCause (Option Stmt)
  stop : Nat
  deriving Repr

namespace Walk

/-- One pass. It goes one token further where the attempt has stopped without a statement. -/
def pass (calls : Nat) (tokens : List Token) (place : Nat) : Option Pass :=
  match attempt calls tokens place with
  | none => none
  | some (.ok (some stmt), stop) => some ⟨place, .ok (some stmt), stop⟩
  | some (result, stop) => some ⟨place, result, next tokens stop⟩

/-- The main loop: its passes in order, and the index where it is left. -/
def passes : Nat → List Token → Nat → Option (List Pass × Nat)
  | 0, _, _ => none
  | calls + 1, tokens, place =>
    if tokens[place]?.all (·.kind = .endOfInput) then some ([], place)
    else do
      let first ← pass calls tokens place
      let (more, last) ← passes calls tokens first.stop
      pure (first :: more, last)

variable {tokens ahead : List Token} {calls : Nat}

/-- The loop needs a round for each comment ahead, and one to see that it has ended. -/
theorem skipComments_tracks (within : ahead <:+ tokens) (enough : ahead.length < calls) :
    Tracks tokens ahead (skipComments calls)
      (.done () (ahead.dropWhile (·.kind = .comment))) := by
  induction calls generalizing ahead with
  | zero => omega
  | succ calls ih =>
    rw [skipComments]
    cases ahead with
    | nil => exact tracks_consume_of_other within (by simp) (tracks_pure ())
    | cons t more =>
      by_cases comment : t.kind = .comment
      · rw [List.dropWhile_cons_of_pos (by simpa using comment)]
        have behind : more <:+ tokens := (List.suffix_cons t more).trans within
        exact tracks_consume_of_kind within comment (ih behind (Nat.lt_of_succ_lt_succ enough))
      · rw [List.dropWhile_cons_of_neg (by simpa using comment)]
        exact tracks_consume_of_other within (by simpa using comment) (tracks_pure ())

end Walk

/-- What an attempt gives, without the place of an error. -/
def Attempt.result : Attempt → Except SyntaxCause (Option Stmt)
  | accepted stmt => .ok (some stmt)
  | rejected error => .error error.cause
  | nothing => .ok none

namespace Walk

variable {c : Cursor}

theorem next_position (c : Cursor) : next c.all c.position = c.advance.position := by
  have place : c.position = c.all.length - c.ahead.length := rfl
  rw [Cursor.position_advance, place]
  cases ahead : c.ahead with
  | nil => simp [next]
  | cons t more =>
    have within : t :: more <:+ c.all := ahead ▸ c.suffix
    have fits := within.length_le
    rw [List.length_cons] at fits
    rw [if_neg (List.cons_ne_nil t more), next_place within, List.length_cons]
    omega

/-- Behind the comments an attempt goes on by what lies at the front. -/
theorem tracks_attempt {outcome : Outcome (Option Stmt)} (enough : c.ahead.length < calls)
    (h : Tracks c.all c.skipComments.ahead
      (if c.skipComments.atEnd then pure none else some <$> statement calls) outcome) :
    Tracks c.all c.ahead (attempt calls) outcome := by
  have skipped := skipComments_tracks c.suffix enough
  exact skipped.onward (tracks_current c.skipComments.suffix h)

/-- One pass goes as one attempt does. -/
theorem pass_position (c : Cursor) (enough : 4 * c.all.length + 3 ≤ calls) :
    pass calls c.all c.position =
      some ⟨c.position, c.attempt.1.result, c.attempt.2.position⟩ := by
  have fits := c.suffix.length_le
  have rounds : c.ahead.length < calls := by omega
  by_cases ended : c.skipComments.atEnd = true
  · have tried : Tracks c.all c.ahead (attempt calls) (.done none c.skipComments.ahead) := by
      apply tracks_attempt rounds
      rw [if_pos ended]
      exact tracks_pure none
    have step : attempt calls c.all c.position = some (.ok none, c.skipComments.position) := tried
    rw [pass, step, Cursor.attempt_of_atEnd ended, ← next_position]
    rfl
  · have tried : Tracks c.all c.ahead (attempt calls)
        ((Reader.statement c.skipComments.ahead).andThen fun stmt => .done (some stmt)) := by
      apply tracks_attempt rounds
      rw [if_neg ended]
      have read := follows_statement enough _ c.skipComments.suffix
      exact read.bind fun stmt _ _ => tracks_pure (some stmt)
    obtain ⟨stop, all, left, move⟩ := Cursor.exists_attempt ended
    rw [move]
    have place : stop.position = c.all.length - stop.ahead.length := by
      rw [← all]
      rfl
    cases read : Reader.statement c.skipComments.ahead with
    | done stmt rest =>
      rw [read] at left tried
      have step : attempt calls c.all c.position = some (.ok (some stmt), stop.position) := by
        rw [place, left]
        exact tried
      rw [pass, step]
      rfl
    | failed cause rest =>
      -- The token that does not fit is passed over, unless the list has ended in front of it.
      rw [read] at left tried
      have step : attempt calls c.all c.position = some (.error cause, stop.position) := by
        rw [place, left]
        exact tried
      rw [pass, step, ← next_position, all]
      rfl

end Walk

/-- Passes of which each starts where the one before it ends, and ends further on. -/
inductive Climbs : Nat → List Pass → Nat → Prop
  | nil (place : Nat) : Climbs place [] place
  | cons {pass : Pass} {run : List Pass} {start last : Nat} (starts : pass.start = start)
      (further : start < pass.stop) (later : Climbs pass.stop run last) :
      Climbs start (pass :: run) last

/-- Each pass takes a token at least. -/
theorem Climbs.length_le {run : List Pass} {start last : Nat} (h : Climbs start run last) :
    start + run.length ≤ last := by
  induction h with
  | nil place => exact Nat.le_refl place
  | cons starts further later ih =>
    rw [List.length_cons]
    omega

/-- Every pass is one step up between the ends of the run. -/
theorem Climbs.between {run : List Pass} {start last : Nat} (h : Climbs start run last) :
    ∀ pass ∈ run, start ≤ pass.start ∧ pass.start < pass.stop ∧ pass.stop ≤ last := by
  induction h with
  | nil place =>
    intro pass member
    cases member
  | cons starts further later ih =>
    have rest := later.length_le
    intro pass member
    rcases List.mem_cons.mp member with rfl | among
    · omega
    · have higher := ih pass among
      omega

namespace Pass

def statement? (pass : Pass) : Option Stmt := pass.result.toOption.join

def cause? (pass : Pass) : Option SyntaxCause :=
  match pass.result with
  | .ok _ => none
  | .error cause => some cause

theorem statement?_or_cause? (pass : Pass) : pass.statement? = none ∨ pass.cause? = none := by
  obtain ⟨start, result, stop⟩ := pass
  cases result with
  | error cause => exact .inl rfl
  | ok stmt => exact .inr rfl

/-- A pass does not give a statement and an error as well. -/
theorem length_filterMap_le (run : List Pass) :
    (run.filterMap statement?).length + (run.filterMap cause?).length ≤ run.length := by
  induction run with
  | nil => exact Nat.le_refl 0
  | cons pass run ih =>
    rw [List.filterMap_cons, List.filterMap_cons, List.length_cons]
    rcases pass.statement?_or_cause? with idle | right
    · rw [idle]
      cases pass.cause? <;> simp only [List.length_cons] <;> omega
    · rw [right]
      cases pass.statement? <;> simp only [List.length_cons] <;> omega

end Pass

/-- A run of the main loop from an index. It climbs to the index where it is left, which is in the
list or at its end, and the loop is left because of what stands there. -/
structure Ascent (tokens : List Token) (start : Nat) (run : List Pass) (last : Nat) : Prop where
  climbs : Climbs start run last
  inside : last ≤ tokens.length
  ended : ∀ t ∈ tokens[last]?, t.kind = .endOfInput

/-- An attempt ends further on than it starts. -/
theorem Cursor.position_lt_attempt {c : Cursor} (more : ¬ AtMark c.ahead) :
    c.position < c.attempt.2.position := by
  have notEnd : c.atEnd = false := Bool.eq_false_iff.mpr (mt atEnd_eq_true_iff.mp more)
  have fewer := c.attempt_advances notEnd
  have fits := c.suffix.length_le
  have all := c.attempt_step.all
  unfold position
  rw [all]
  omega

namespace Walk

variable {c : Cursor} {calls : Nat}

theorem passes_of_atMark (mark : Cursor.AtMark c.ahead) (enough : 0 < calls) :
    passes calls c.all c.position = some ([], c.position) := by
  cases calls with
  | zero => omega
  | succ calls =>
    rw [passes, show c.all[c.position]? = c.ahead.head? from getElem?_place c.suffix]
    exact if_pos (Cursor.atEnd_eq_true_iff.mpr mark)

/-- The main loop goes on with an attempt. -/
theorem passes_of_not_atMark (more : ¬ Cursor.AtMark c.ahead)
    (enough : 4 * c.all.length + 3 ≤ calls) {run : List Pass} {last : Nat}
    (later : passes calls c.all c.attempt.2.position = some (run, last)) :
    passes (calls + 1) c.all c.position =
      some (⟨c.position, c.attempt.1.result, c.attempt.2.position⟩ :: run, last) := by
  have first := pass_position c enough
  rw [passes, show c.all[c.position]? = c.ahead.head? from getElem?_place c.suffix, first]
  apply (if_neg (mt Cursor.atEnd_eq_true_iff.mp more)).trans
  show (passes calls c.all c.attempt.2.position).bind _ = _
  rw [later]
  rfl

end Walk

/-- The passes from a cursor on go as the attempts do, and climb to an end. -/
theorem Cursor.exists_passes (c : Cursor) :
    ∃ run last, (∀ calls, 5 * c.all.length + 4 ≤ calls + c.position →
        Walk.passes calls c.all c.position = some (run, last)) ∧
      Ascent c.all c.position run last ∧
      run.map (·.result) = c.attempts.map Attempt.result := by
  have within (d : Cursor) : d.position ≤ d.all.length := Nat.sub_le _ _
  induction c using Cursor.place_induction with
  | atMark c mark =>
    have front : c.all[c.position]? = c.ahead.head? := Walk.getElem?_place c.suffix
    have inside := within c
    refine ⟨[], c.position, ?_, ⟨.nil _, inside, front ▸ mark⟩, ?_⟩
    · intro calls enough
      exact Walk.passes_of_atMark mark (by omega)
    · rw [Cursor.attempts_of_atMark mark]
      rfl
  | attempt c more ih =>
    have further := Cursor.position_lt_attempt more
    have inside := within c.attempt.2
    rw [c.attempt_step.all] at ih inside
    obtain ⟨run, last, runs, ascent, results⟩ := ih
    refine ⟨⟨c.position, c.attempt.1.result, c.attempt.2.position⟩ :: run, last, ?_,
      ⟨.cons rfl further ascent.climbs, ascent.inside, ascent.ended⟩, ?_⟩
    · intro calls enough
      cases calls with
      | zero => omega
      | succ calls =>
        -- The call that this pass takes is paid for by its step forward.
        exact Walk.passes_of_not_atMark more (by omega) (runs calls (by omega))
    · rw [Cursor.attempts_of_not_atMark more, List.map_cons, results]
      rfl

namespace Pass

variable {α : Type} {run : List Pass} {attempts : List Attempt}

theorem filterMap_eq {made : Pass → Option α} {given : Attempt → Option α}
    (h : run.map (·.result) = attempts.map Attempt.result)
    (same : ∀ pass attempt, pass.result = Attempt.result attempt → made pass = given attempt) :
    run.filterMap made = attempts.filterMap given := by
  induction run generalizing attempts with
  | nil =>
    obtain rfl : attempts = [] := List.map_eq_nil_iff.mp h.symm
    rfl
  | cons pass run ih =>
    obtain ⟨attempt, later, rfl, first, more⟩ := List.map_eq_cons_iff.mp h.symm
    rw [List.filterMap_cons, List.filterMap_cons, same pass attempt first.symm, ih more.symm]

theorem filterMap_statement? (h : run.map (·.result) = attempts.map Attempt.result) :
    run.filterMap statement? = attempts.filterMap Attempt.statement? := by
  apply filterMap_eq h
  intro pass attempt same
  rw [statement?, same]
  cases attempt <;> rfl

theorem filterMap_cause? (h : run.map (·.result) = attempts.map Attempt.result) :
    run.filterMap cause? = (attempts.filterMap Attempt.error?).map (·.cause) := by
  rw [List.map_filterMap]
  apply filterMap_eq h
  intro pass attempt same
  rw [cause?, same]
  cases attempt <;> rfl

end Pass

/-- The reading of an array has passed its opening bracket when it gives one. -/
theorem Reader.arrayLiteral_advances (tokens : List Token) :
    (arrayLiteral tokens).Advances tokens := by
  have within := sound_arrayLiteral tokens
  cases read : arrayLiteral tokens with
  | failed cause rest =>
    rw [read] at within
    exact within
  | done value rest =>
    obtain ⟨location, mid, opens, more⟩ := bind_eq_done_iff.mp read
    obtain ⟨t, rfl, -⟩ := token_eq_done_iff.mp opens
    have left : rest <:+ mid :=
      (sound_bind sound_elements fun _ => sound_pure _).suffix more
    exact ⟨left.trans (List.suffix_cons t mid), Nat.lt_succ_of_le left.length_le⟩

namespace Walk

variable {α : Type} {tokens : List Token} {place calls : Nat} {walk : Walk α} {reader : Reader α}

/-- The walk ends as the reader does, no further back than it starts and not beyond the list. -/
structure Forward (walk : Walk α) (reader : Reader α) (tokens : List Token) (place : Nat) :
    Prop where
  ends : walk tokens place = some ((reader (tokens.drop place)).halt tokens)
  onward : place ≤ ((reader (tokens.drop place)).halt tokens).2
  inside : ((reader (tokens.drop place)).halt tokens).2 ≤ tokens.length

/-- The walk goes forward, and by a token at least if it gives a value. -/
structure Consumes (walk : Walk α) (reader : Reader α) (tokens : List Token) (place : Nat) : Prop
    extends Forward walk reader tokens place where
  further : ((reader (tokens.drop place)).halt tokens).1.isOk = true →
    place < ((reader (tokens.drop place)).halt tokens).2

theorem Follows.forward (h : Follows tokens walk reader) (sound : reader.Sound)
    (inside : place ≤ tokens.length) : Forward walk reader tokens place := by
  have size : (tokens.drop place).length = tokens.length - place := List.length_drop
  have tracks := h (tokens.drop place) (List.drop_suffix place tokens)
  rw [Tracks, size, Nat.sub_sub_self inside] at tracks
  have left := (sound (tokens.drop place)).length_le
  refine ⟨tracks, ?_, ?_⟩ <;> rw [Outcome.snd_halt] <;> omega

theorem Follows.consumes (h : Follows tokens walk reader)
    (advances : ∀ ahead, (reader ahead).Advances ahead) (inside : place ≤ tokens.length) :
    Consumes walk reader tokens place := by
  refine ⟨h.forward (fun ahead => (advances ahead).within) inside, ?_⟩
  have size : (tokens.drop place).length = tokens.length - place := List.length_drop
  have moved := advances (tokens.drop place)
  intro given
  cases read : reader (tokens.drop place) with
  | failed cause rest =>
    rw [read] at given
    cases given
  | done value rest =>
    rw [read] at moved
    have fewer := moved.fewer
    show place < tokens.length - rest.length
    omega

end Walk

/-- Statements and errors have a token of their own each. -/
theorem Sink.length_parse_le (sink : Sink) (tokens : List Token) :
    (sink.parse tokens).1.statements.length + (sink.parse tokens).2.records.length ≤
      sink.records.length + tokens.length := by
  obtain ⟨run, last, -, ascent, results⟩ := (Cursor.start tokens).exists_passes
  have few := Pass.length_filterMap_le run
  have climbed := ascent.climbs.length_le
  have inside : last ≤ tokens.length := ascent.inside
  rw [Pass.filterMap_statement? results, Pass.filterMap_cause? results, List.length_map] at few
  have records : (sink.parse tokens).2.records = sink.records ++
      ((Parse.ofTokens tokens).errors.map SyntaxError.diagnostic).map sink.stamp := rfl
  rw [records, List.length_append, List.length_map, List.length_map]
  show (List.filterMap Attempt.statement? _).length +
    (_ + (List.filterMap Attempt.error? _).length) ≤ _
  omega

/-- Reading ends for every token list. With enough calls to nest, the main loop comes to its end,
since each of its passes ends further on than it starts; it never leaves the list, and it is left at
an end mark or where the list ends. Its passes give the statements and the errors of the parse. From
every index, the walks for expressions, operands, arrays and contents end as the readers do that
run, go forward and stay in the list, and of these the first three pass a token if they give a
value. There are no more statements and errors than tokens. -/
theorem Walk.passes_end (tokens : List Token) :
    (∃ run last,
      (∀ calls, 5 * tokens.length + 4 ≤ calls → passes calls tokens 0 = some (run, last)) ∧
      Ascent tokens 0 run last ∧
      (∀ pass ∈ run, pass.start < pass.stop ∧ pass.stop ≤ tokens.length) ∧
      run.filterMap Pass.statement? = (Parse.ofTokens tokens).program.statements ∧
      run.filterMap Pass.cause? = (Parse.ofTokens tokens).errors.map (·.cause)) ∧
    (∀ calls place, 4 * tokens.length + 3 ≤ calls → place ≤ tokens.length →
      Consumes (expression calls) Reader.expression tokens place ∧
      Consumes (operand calls) Reader.operand tokens place ∧
      Consumes (arrayLiteral calls) Reader.arrayLiteral tokens place ∧
      Forward (content calls) Reader.content tokens place) ∧
    ∀ sink : Sink, (sink.parse tokens).1.statements.length +
      (sink.parse tokens).2.records.length ≤ sink.records.length + tokens.length := by
  refine ⟨?_, ?_, fun sink => sink.length_parse_le tokens⟩
  · obtain ⟨run, last, runs, ascent, results⟩ := (Cursor.start tokens).exists_passes
    have front : (Cursor.start tokens).position = 0 := Nat.sub_self _
    rw [front] at runs ascent
    refine ⟨run, last, runs, ascent, ?_, Pass.filterMap_statement? results,
      Pass.filterMap_cause? results⟩
    intro pass member
    obtain ⟨-, further, below⟩ := ascent.climbs.between pass member
    exact ⟨further, Nat.le_trans below ascent.inside⟩
  · intro calls place enough inside
    exact ⟨(follows_expression enough).consumes Reader.expression_advances inside,
      (follows_operand enough).consumes Reader.operand_advances inside,
      (follows_arrayLiteral enough).consumes Reader.arrayLiteral_advances inside,
      (follows_content enough).forward Reader.sound_content inside⟩

/-- Where the list ends inside a statement, no token is left to pass over. -/
example : Walk.passes 9 [⟨.new, "new", ⟨1, 1⟩, 3⟩] 0 =
    some ([⟨0, .error .nameAfterNew, 1⟩], 1) := rfl

end Quill
