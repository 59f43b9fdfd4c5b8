import Quill.Proofs.Grammar.FirstError
import Quill.Proofs.Lexeme.DigitRun
import Quill.Proofs.Tree.Nodes

/-!
Numbers that are too large. Where an operand or the size of an array is wanted, a numeral out of
range is where reading fails, and it is passed over; all other numerals have their decimal value
(`Sink.parse_scan_integers`). That something is wanted behind some tokens means that a statement of
the grammar goes on there with a numeral in range.
-/
namespace Quill

/-- A declaration of the grammar goes on with a numeral behind the tokens, and the numeral is an
operand. -/
def AwaitsOperand (front : List Token) : Prop :=
  ∃ (t : Token) (more : List Token) (stmt : Stmt), t.kind = .intLiteral ∧
    StatementWord (front ++ t :: more) stmt ∧
    ((∃ name type value place, stmt = .scalar name type value place) ∨
      ∃ name value place, stmt = .array name (.values value) place)

/-- A declaration of the grammar goes on with a numeral behind the tokens, and the numeral is the
size of an array. -/
def AwaitsSize (front : List Token) : Prop :=
  ∃ (t : Token) (more : List Token) (name : String) (type : TypeName) (size : Nat)
    (place : Location), t.kind = .intLiteral ∧
    StatementWord (front ++ t :: more) (.array name (.sized type size) place)

section Split

variable {c u : Token} {word tail front more : List Token}

/-- A token of another kind is not the numeral, so it stands in front of it. -/
theorem exists_front_of_cons (same : c :: tail = front ++ u :: more)
    (other : c.kind ≠ u.kind) : ∃ later, front = c :: later ∧ tail = later ++ u :: more := by
  cases front with
  | nil =>
    cases same
    exact absurd rfl other
  | cons first later =>
    cases same
    exact ⟨later, rfl, rfl⟩

theorem exists_front_of_others (others : List Token) (same : others ++ tail = front ++ u :: more)
    (apart : ∀ c ∈ others, c.kind ≠ u.kind) :
    ∃ later, front = others ++ later ∧ tail = later ++ u :: more := by
  induction others generalizing front with
  | nil => exact ⟨front, rfl, same⟩
  | cons c others ih =>
    obtain ⟨front, rfl, rest⟩ := exists_front_of_cons same (apart c List.mem_cons_self)
    obtain ⟨later, rfl, split⟩ := ih rest fun c among => apart c (List.mem_cons_of_mem _ among)
    exact ⟨later, rfl, split⟩

/-- A token stands before another one of a different kind, or behind it. -/
theorem exists_front_of_append (same : word ++ c :: tail = front ++ u :: more)
    (other : c.kind ≠ u.kind) :
    (∃ mid, word = front ++ u :: mid) ∨
      ∃ later, front = word ++ c :: later ∧ tail = later ++ u :: more := by
  rcases List.append_eq_append_iff.mp same with ⟨beyond, rfl, whole⟩ | ⟨beyond, rfl, whole⟩
  · obtain ⟨later, rfl, rest⟩ := exists_front_of_cons whole other
    exact .inr ⟨later, rfl, rest⟩
  · cases beyond with
    | nil =>
      cases whole
      exact absurd rfl other
    | cons first mid =>
      cases whole
      exact .inl ⟨mid, rfl⟩

end Split

namespace Reader

variable {α β : Type} {tokens rest : List Token} {cause : SyntaxCause} {t : Token}

/-- A failure in the first part is a failure of the whole, whatever was to come. -/
theorem bind_of_failed {first : Reader α} {next : α → Reader β}
    (h : first tokens = .failed cause rest) : (first >>= next) tokens = .failed cause rest := by
  rw [bind_apply, h]
  rfl

def TooLarge (t : Token) : Prop := literal? t = some (.error .integerRange)

/-- The reader fails at a token behind others, whatever follows. -/
def FailsAt (reader : Reader α) (cause : SyntaxCause) (front : List Token) (t : Token) : Prop :=
  ∀ rest, reader (front ++ t :: rest) = .failed cause (t :: rest)

theorem operand_failsAt (large : TooLarge t) : FailsAt operand .integerRange [] t := by
  intro rest
  rw [List.nil_append, operand_eq_cons, large]

theorem expression_failsAt {front : List Token} (h : FailsAt operand .integerRange front t) :
    FailsAt expression .integerRange front t := by
  intro rest
  rw [expression_eq, h]
  rfl

theorem someElements_failsAt {front : List Token} (h : FailsAt expression .integerRange front t) :
    FailsAt someElements .integerRange front t := by
  intro rest
  rw [someElements_eq, h]
  rfl

/-- At a closing bracket no element is wanted, and something else is wrong. -/
theorem elements_failsAt {front : List Token} (h : FailsAt someElements .integerRange front t) :
    FailsAt elements .integerRange front t := by
  intro rest
  have failed := h rest
  rw [elements_eq]
  cases whole : front ++ t :: rest with
  | nil => simp at whole
  | cons first more =>
    rw [whole] at failed
    have other : first.kind ≠ .bracketClose := by
      intro kind
      rw [someElements_eq, expression_eq, operand_eq_cons] at failed
      simp only [literal?, kind, reduceCtorEq, if_false] at failed
      cases failed
    simp only [if_neg other]
    exact failed

end Reader

open Reader (TooLarge FailsAt)

section Operand

variable {t : Token}

mutual

/-- A word with another numeral in its place shows where the reader comes to the one that is too
large. -/
theorem OperandWord.failsAt (large : TooLarge t) {word : List Token} {e : Expr} :
    OperandWord word e → ∀ {front more : List Token} {u : Token}, u.kind = .intLiteral →
      word = front ++ u :: more → FailsAt Reader.operand .integerRange front t
  | .literal _, front, _, _, _, same => by
    cases front with
    | nil => exact Reader.operand_failsAt large
    | cons first later => simp at same
  | .identifier name, _, _, _, kind, same => by
    obtain ⟨later, rfl, rest⟩ := exists_front_of_cons same (by simp [name, kind])
    simp at rest
  | .parens opening inner closing, _, _, _, kind, same => by
    obtain ⟨later, rfl, tail⟩ := exists_front_of_cons same (by simp [opening, kind])
    rcases exists_front_of_append tail (by simp [closing, kind]) with ⟨mid, whole⟩ | ⟨_, -, nothing⟩
    · have fails := inner.failsAt large kind whole
      intro rest
      simp only [List.cons_append, Reader.operand_eq_cons, Reader.literal?, opening, reduceCtorEq,
        if_false, if_true, fails rest]
      rfl
    · simp at nothing
  | .array h, _, _, _, kind, same => by
    obtain ⟨first, later, rfl, opening, fails⟩ := h.failsAt large kind same
    intro rest
    simp only [List.cons_append, Reader.operand_eq_cons, Reader.literal?, opening, reduceCtorEq,
      if_false, if_true, fails rest]
    rfl

theorem ExpressionWord.failsAt (large : TooLarge t) {word : List Token} {e : Expr} :
    ExpressionWord word e → ∀ {front more : List Token} {u : Token}, u.kind = .intLiteral →
      word = front ++ u :: more → FailsAt Reader.expression .integerRange front t
  | .operand h, _, _, _, kind, same => Reader.expression_failsAt (h.failsAt large kind same)
  | @ExpressionWord.binary word _ _ _ operator sign hleft isSign hright, _, _, _, kind, same => by
    have other : sign.kind ≠ .intLiteral := by rw [isSign]; cases operator <;> decide
    rcases exists_front_of_append same (kind ▸ other) with ⟨mid, whole⟩ | ⟨later, rfl, whole⟩
    · exact Reader.expression_failsAt (hleft.failsAt large kind whole)
    · have fails := hright.failsAt large kind whole
      intro rest
      rw [Reader.expression_eq, List.append_assoc, hleft.read]
      show Reader.afterOperand _ (sign :: (later ++ t :: rest)) = _
      simp [Reader.afterOperand, Operator.ofKind?_eq_some_iff.mpr isSign, fails rest]

theorem ArrayWord.failsAt (large : TooLarge t) {word : List Token} {e : Expr} :
    ArrayWord word e → ∀ {front more : List Token} {u : Token}, u.kind = .intLiteral →
      word = front ++ u :: more → ∃ first later, front = first :: later ∧
        first.kind = .bracketOpen ∧ FailsAt Reader.elements .integerRange later t
  | .empty opening closing, _, _, _, kind, same => by
    obtain ⟨later, rfl, tail⟩ := exists_front_of_cons same (by simp [opening, kind])
    obtain ⟨_, rfl, nothing⟩ := exists_front_of_cons tail (by simp [closing, kind])
    simp at nothing
  | .some opening inner closing, _, _, _, kind, same => by
    obtain ⟨later, rfl, tail⟩ := exists_front_of_cons same (by simp [opening, kind])
    rcases exists_front_of_append tail (by simp [closing, kind]) with ⟨mid, whole⟩ | ⟨_, -, nothing⟩
    · exact ⟨_, later, rfl, opening, Reader.elements_failsAt (inner.failsAt large kind whole)⟩
    · simp at nothing

theorem ElementsWord.failsAt (large : TooLarge t) {word : List Token} {es : List Expr} :
    ElementsWord word es → ∀ {front more : List Token} {u : Token}, u.kind = .intLiteral →
      word = front ++ u :: more → FailsAt Reader.someElements .integerRange front t
  | .one h, _, _, _, kind, same => Reader.someElements_failsAt (h.failsAt large kind same)
  | .more hfirst comma hothers, _, _, _, kind, same => by
    rcases exists_front_of_append same (by simp [comma, kind]) with ⟨mid, whole⟩ |
      ⟨later, rfl, whole⟩
    · exact Reader.someElements_failsAt (hfirst.failsAt large kind whole)
    · have fails := hothers.failsAt large kind whole
      intro rest
      rw [Reader.someElements_eq, List.append_assoc, List.cons_append,
        hfirst.read _ (Reader.stops_cons (by rw [comma]; rfl))]
      show Reader.afterElement _ (_ :: (later ++ t :: rest)) = _
      simp [Reader.afterElement, comma, fails rest]

end

end Operand

section Statement

variable {t : Token} {front : List Token}

theorem TypeName.plain_of_kind {type : TypeName} (kind : t.kind = type.kind) :
    t.kind ≠ .bracketOpen ∧ t.kind ≠ .braceOpen ∧ t.kind ≠ .intLiteral := by
  cases type <;> simp [kind, TypeName.kind]

open Reader in
/-- Reading a declaration fails at an operand that is too large. -/
theorem AwaitsOperand.failsAt (awaits : AwaitsOperand front) (large : TooLarge t) :
    FailsAt statement .integerRange front t := by
  obtain ⟨u, more, stmt, kind, word, form⟩ := awaits
  generalize same : front ++ u :: more = tokens at word
  rcases form with ⟨_, _, _, _, rfl⟩ | ⟨_, _, _, rfl⟩
  · cases word with
    | scalar hnew hname htype hequals hvalue =>
      obtain ⟨noBracket, noBrace, noNumeral⟩ := TypeName.plain_of_kind htype
      obtain ⟨later, rfl, whole⟩ := exists_front_of_others [_, _, _, _] same.symm
        (by simp [hnew, hname, hequals, kind, noNumeral])
      intro rest
      simp only [List.cons_append, List.nil_append, statement, hnew]
      rw [declaration_of_front hname, if_neg (by simp [noBracket]), if_neg (by simp [noBrace])]
      unfold scalarDeclaration
      rw [bind_of_done (typeName_of_kind htype), bind_of_done (expect_of_kind hequals),
        bind_of_failed (hvalue.failsAt large kind whole rest)]
    | flag hbl hname hequals hvalue =>
      obtain ⟨later, rfl, whole⟩ := exists_front_of_others [_, _, _] same.symm
        (by simp [hbl, hname, hequals, kind])
      intro rest
      simp only [List.cons_append, List.nil_append, statement, hbl]
      unfold flagDeclaration
      rw [bind_of_done (identifier_of_kind hname), bind_of_done (expect_of_kind hequals),
        bind_of_failed (hvalue.failsAt large kind whole rest)]
  · cases word with
    | values hnew hname opening closing hequals hvalue =>
      obtain ⟨later, rfl, whole⟩ := exists_front_of_others [_, _, _, _, _] same.symm
        (by simp [hnew, hname, opening, closing, hequals, kind])
      obtain ⟨first, later, rfl, hfirst, fails⟩ := hvalue.failsAt large kind whole
      intro rest
      simp only [List.cons_append, List.nil_append, statement, hnew]
      rw [declaration_of_front hname, if_pos (by simp [opening]), List.tail_cons]
      unfold valuesDeclaration arrayLiteral
      rw [bind_of_done (expect_of_kind closing), bind_of_done (expect_of_kind hequals)]
      refine bind_of_failed ?_
      rw [bind_of_done (token_eq_done_iff.mpr ⟨first, rfl, if_pos hfirst⟩),
        bind_of_failed (fails rest)]

open Reader in
/-- Reading a declaration fails at the size of an array that is too large. -/
theorem AwaitsSize.failsAt (awaits : AwaitsSize front) (numeral : t.kind = .intLiteral)
    (large : Numeral.size? t.lexeme.toList = none) :
    FailsAt statement .arraySizeRange front t := by
  obtain ⟨u, more, _, _, _, _, kind, word⟩ := awaits
  generalize same : front ++ u :: more = tokens at word
  cases word with
  | sized hnew hname hfirst htype hlast hopening hcount _ _ hclosing =>
    obtain ⟨-, -, noNumeral⟩ := TypeName.plain_of_kind htype
    obtain ⟨later, rfl, whole⟩ := exists_front_of_others [_, _, _, _, _, _] same.symm
      (by simp [hnew, hname, hfirst, hlast, hopening, kind, noNumeral])
    cases later with
    | nil =>
      intro rest
      have failed : arraySize (t :: rest) = .failed .arraySizeRange (t :: rest) := by
        simp [arraySize, numeral, large]
      simp only [List.cons_append, List.nil_append, statement, hnew]
      rw [declaration_of_front hname, if_neg (by simp [hfirst]), if_pos (by simp [hfirst]),
        List.tail_cons]
      unfold sizedDeclaration
      rw [bind_of_done (typeName_of_kind htype), bind_of_done (expect_of_kind hlast),
        bind_of_done (expect_of_kind hopening), bind_of_failed failed]
    | cons first later =>
      obtain ⟨-, ending⟩ := List.cons.inj whole
      obtain ⟨_, -, nothing⟩ := exists_front_of_cons ending (by simp [hclosing, kind])
      simp at nothing

end Statement

namespace Numeral

variable {text : List Char}

/-- A numeral without a sign has the value of its digits. -/
theorem Unsigned.eq_decimalValue {n : Nat} (h : Unsigned text n)
    (digits : ∀ c ∈ text, c.isDigit = true) : n = decimalValue text := by
  cases h with
  | bare h => exact h.value.symm.trans (ofDigits_eq_decimalValue text)
  | plus h => exact absurd (digits '+' List.mem_cons_self) (by decide)

theorem Signed.eq_decimalValue {n : Int} (h : Signed text n)
    (digits : ∀ c ∈ text, c.isDigit = true) : n = decimalValue text := by
  cases h with
  | unsigned h => exact congrArg Int.ofNat (h.eq_decimalValue digits)
  | minus h => exact absurd (digits '-' List.mem_cons_self) (by decide)

theorem integer?_of_large (digits : ∀ c ∈ text, c.isDigit = true)
    (large : 2 ^ 63 ≤ decimalValue text) : integer? text = none := by
  refine Option.eq_none_iff_forall_ne_some.mpr fun n read => ?_
  obtain ⟨written, -, upper⟩ := integer?_eq_some_iff.mp read
  rw [written.eq_decimalValue digits] at upper
  omega

theorem size?_of_large (digits : ∀ c ∈ text, c.isDigit = true)
    (large : 2 ^ 64 ≤ decimalValue text) : size? text = none := by
  refine Option.eq_none_iff_forall_ne_some.mpr fun n read => ?_
  obtain ⟨written, upper⟩ := size?_eq_some_iff.mp read
  rw [written.eq_decimalValue digits] at upper
  omega

end Numeral

/-- Behind some tokens a numeral is wanted, and the one that stands there is out of range. The error
names what is wanted. -/
inductive Exceeds (front : List Token) (t : Token) : String → Prop
  | operand (awaits : AwaitsOperand front) (large : 2 ^ 63 ≤ Numeral.decimalValue t.lexeme.toList) :
      Exceeds front t "Integer literal"
  | size (awaits : AwaitsSize front) (large : 2 ^ 64 ≤ Numeral.decimalValue t.lexeme.toList) :
      Exceeds front t "Array size"

/-- A statement does not start with a numeral, and neither with a comment or an end mark. -/
theorem StatementWord.exists_front {front more : List Token} {u : Token} {stmt : Stmt}
    (h : StatementWord (front ++ u :: more) stmt) (kind : u.kind = .intLiteral) :
    ∃ first later, front = first :: later ∧ first.kind ≠ .comment ∧ first.kind ≠ .endOfInput := by
  obtain ⟨first, tail, whole, kinds⟩ := h.exists_cons
  have plain : first.kind ≠ u.kind ∧ first.kind ≠ .comment ∧ first.kind ≠ .endOfInput := by
    rcases kinds with is | is | is <;> simp [is, kind]
  obtain ⟨later, rfl, -⟩ := exists_front_of_cons whole.symm plain.1
  exact ⟨first, later, rfl, plain.2⟩

namespace Exceeds

variable {front : List Token} {t : Token} {what : String}

theorem exists_cons (h : Exceeds front t what) :
    ∃ first later, front = first :: later ∧ first.kind ≠ .comment ∧ first.kind ≠ .endOfInput := by
  cases h with
  | operand awaits =>
    obtain ⟨u, more, stmt, kind, word, -⟩ := awaits
    exact word.exists_front kind
  | size awaits =>
    obtain ⟨u, more, _, _, _, _, kind, word⟩ := awaits
    exact word.exists_front kind

/-- The reader of statements fails at the numeral. -/
theorem failsAt (h : Exceeds front t what) (kind : t.kind = .intLiteral)
    (digits : ∀ c ∈ t.lexeme.toList, c.isDigit = true) :
    ∃ cause, FailsAt Reader.statement cause front t ∧
      cause.message = what ++ " is out of range" := by
  cases h with
  | operand awaits large =>
    have tooLarge : TooLarge t := by
      simp [TooLarge, Reader.literal?, kind, Numeral.integer?_of_large digits large]
    exact ⟨_, awaits.failsAt tooLarge, rfl⟩
  | size awaits large =>
    exact ⟨_, awaits.failsAt kind (Numeral.size?_of_large digits large), rfl⟩

end Exceeds

namespace Cursor

/-- A run from one place attempts some statements and comes to another place. -/
inductive Reaches : Cursor → List Attempt → Cursor → Prop
  | here {c : Cursor} : Reaches c [] c
  | next {c d : Cursor} {earlier : List Attempt} (goesOn : ¬ AtMark c.ahead)
      (h : Reaches c.attempt.2 earlier d) : Reaches c (c.attempt.1 :: earlier) d

theorem Reaches.all {c d : Cursor} {earlier : List Attempt} (h : Reaches c earlier d) :
    d.all = c.all := by
  induction h with
  | here => rfl
  | next _ _ ih => exact ih.trans (attempt_step _).all

/-- The attempts of the whole run are those up to the place and those from there. -/
theorem Reaches.attempts_eq {c d : Cursor} {earlier : List Attempt} (h : Reaches c earlier d) :
    c.attempts = earlier ++ d.attempts := by
  induction h with
  | here => rfl
  | next goesOn _ ih => rw [attempts_of_not_atMark goesOn, ih, List.cons_append]

end Cursor

/-- An attempt that comes to a numeral out of range fails there, and the next one starts behind
it. -/
theorem Exceeds.attempt {c : Cursor} {comments front rest : List Token} {t : Token} {what : String}
    (h : Exceeds front t what) (kind : t.kind = .intLiteral)
    (digits : ∀ c ∈ t.lexeme.toList, c.isDigit = true)
    (hcomments : ∀ t ∈ comments, t.kind = .comment)
    (ahead : c.ahead = comments ++ (front ++ t :: rest)) :
    ∃ (cause : SyntaxCause) (stop : Cursor), cause.message = what ++ " is out of range" ∧
      stop.ahead = t :: rest ∧ c.attempt = (.rejected ⟨cause, stop⟩, stop.advance) ∧
      c.attempts = .rejected ⟨cause, stop⟩ :: stop.advance.attempts := by
  obtain ⟨cause, fails, message⟩ := h.failsAt kind digits
  obtain ⟨first, later, rfl, noComment, noMark⟩ := h.exists_cons
  obtain ⟨goesOn, stop, rejected, left, -⟩ := Cursor.attempt_of_failed ahead hcomments
    (by simpa using noComment) (fun mark => noMark (mark first rfl)) (fails rest)
  refine ⟨cause, stop, message, left, rejected, ?_⟩
  rw [Cursor.attempts_of_not_atMark goesOn, rejected]

/-- What is told about a numeral out of range. -/
theorem SyntaxError.diagnostic_of_numeral {error : SyntaxError} {t : Token} {rest : List Token}
    {what : String} (ahead : error.stop.ahead = t :: rest) (kind : t.kind = .intLiteral)
    (cause : error.cause.message = what ++ " is out of range") :
    error.diagnostic = ⟨.syntactic, what ++ " is out of range, found '" ++ t.lexeme ++ "'",
      t.location, max t.endColumn t.location.column, error.cause.suggestion, none⟩ := by
  have blamed : error.blamed? = some t := blamed?_of_ahead ahead
  have described : t.described = "'" ++ t.lexeme ++ "'" := by
    unfold Token.described
    rw [kind]
  have joined : " is out of range" ++ (", found " ++ "'") = " is out of range, found '" := rfl
  have text : error.message = what ++ " is out of range, found '" ++ t.lexeme ++ "'" := by
    rw [message, blamed]
    simp only [cause, described, ← joined, String.append_assoc]
  rw [diagnostic, blamed, text]
  rfl

/-- The numeral of the size in the declaration of an array. -/
theorem StatementWord.exists_size {word : List Token} {name : String} {type : TypeName}
    {size : Nat} {place : Location}
    (h : StatementWord word (.array name (.sized type size) place)) :
    ∃ front count more, word = front ++ count :: more ∧ count.kind = .intLiteral ∧
      Numeral.Unsigned count.lexeme.toList size ∧ size < 2 ^ 64 := by
  cases h with
  | sized hnew hname hfirst htype hlast hopening hcount text bound hclosing =>
    exact ⟨[_, _, _, _, _, _], _, [_], rfl, hcount, text, bound⟩

/-- Integer literals are exact. Each one that is read, and each size of an array, is the decimal
value of all digits that the source has at its place, and is in range. Where one of them is wanted
and the digits that stand there have a value out of range, the attempt has one error, which spans
these digits, and the run goes on behind them. -/
theorem Sink.parse_scan_integers (sink : Sink) (source : String) :
    let scanned := sink.scan source
    let parsed := scanned.2.parse scanned.1
    (∀ (n : Int) (place : Location), .expression (.literal (.integer n) place) ∈ parsed.1.nodes →
      ∃ digits, DigitRun source.toList place digits ∧ n = Numeral.decimalValue digits ∧
        0 ≤ n ∧ n < 2 ^ 63) ∧
    (∀ name type size place, .array name (.sized type size) place ∈ parsed.1.statements →
      ∃ front count more, front ++ count :: more <:+: scanned.1 ∧
        StatementWord (front ++ count :: more) (.array name (.sized type size) place) ∧
        count.kind = .intLiteral ∧
        DigitRun source.toList count.location count.lexeme.toList ∧
        size = Numeral.decimalValue count.lexeme.toList ∧ size < 2 ^ 64) ∧
    ∀ earlier c comments front t rest what, (Cursor.start scanned.1).Reaches earlier c →
      c.ahead = comments ++ (front ++ t :: rest) → (∀ t ∈ comments, t.kind = .comment) →
      t.kind = .intLiteral → Exceeds front t what →
      DigitRun source.toList t.location t.lexeme.toList ∧
      ∃ error next d, c.attempt = (.rejected error, next) ∧ next.ahead = rest ∧
        (Cursor.start scanned.1).attempts = earlier ++ .rejected error :: next.attempts ∧
        parsed.2.records = scanned.2.records ++ (earlier.flatMap Attempt.diagnostics ++
          d :: next.attempts.flatMap Attempt.diagnostics).map scanned.2.stamp ∧
        d.kind = .syntactic ∧ d.message = what ++ " is out of range, found '" ++ t.lexeme ++ "'" ∧
        d.location = t.location ∧
        d.endColumn = t.location.column + t.lexeme.toList.length - 1 := by
  intro scanned parsed
  have digitRun {t : Token} := @Sink.scan_digitRun sink source t
  refine ⟨fun n place node => ?_, fun name type size place member => ?_, ?_⟩
  · obtain ⟨i, t, found, rfl, word⟩ := (Cursor.start scanned.1).attempts_rooted.exists_at node
    cases word with
    | integer kind text lower upper =>
      obtain ⟨run, -⟩ := digitRun (List.mem_of_getElem? found) kind
      have value := text.eq_decimalValue run.digits
      exact ⟨_, run, value, value ▸ Int.natCast_nonneg _, upper⟩
  · obtain ⟨word, hword, within⟩ := Parse.exists_word scanned.1 _ member
    obtain ⟨front, count, more, rfl, kind, text, bound⟩ := hword.exists_size
    obtain ⟨run, -⟩ := digitRun (within.subset (by simp)) kind
    exact ⟨front, count, more, within, hword, kind, run, text.eq_decimalValue run.digits, bound⟩
  · intro earlier c comments front t rest what reaches ahead hcomments kind exceeds
    have within : c.ahead <:+ (Cursor.start scanned.1).all := reaches.all ▸ c.suffix
    obtain ⟨run, ends⟩ := digitRun (within.subset (by simp [ahead])) kind
    obtain ⟨cause, stop, message, left, rejected, attempts⟩ :=
      exceeds.attempt kind run.digits hcomments ahead
    have whole := reaches.attempts_eq.trans (congrArg (earlier ++ ·) attempts)
    let error : SyntaxError := ⟨cause, stop⟩
    have diagnostic := @SyntaxError.diagnostic_of_numeral error t rest what left kind message
    refine ⟨run, error, stop.advance, error.diagnostic, rejected, congrArg List.tail left, whole,
      ?_, ?_⟩
    · have records : parsed.2 = scanned.2.pushAll _ :=
        congrArg Prod.snd (Sink.parse_eq scanned.2 scanned.1)
      rw [records, whole, List.flatMap_append, List.flatMap_cons]
      rfl
    · have notEmpty : 0 < t.lexeme.toList.length := List.length_pos_iff.mpr run.nonempty
      rw [diagnostic]
      refine ⟨rfl, rfl, rfl, ?_⟩
      show max t.endColumn t.location.column = _
      omega

/-- The numeral is the least one that is too large. -/
def overflowText : String := "new x int = 9223372036854775808 bl y = true"

def overflowFront : List Token :=
  [.spelled .new "new" ⟨1, 1⟩, .spelled .identifier "x" ⟨1, 5⟩, .spelled .intType "int" ⟨1, 7⟩,
    .spelled .assign "=" ⟨1, 11⟩]

def overflowNumeral : Token := .spelled .intLiteral "9223372036854775808" ⟨1, 13⟩

def overflowRest : List Token :=
  [.spelled .bl "bl" ⟨1, 33⟩, .spelled .identifier "y" ⟨1, 36⟩, .spelled .assign "=" ⟨1, 38⟩,
    .spelled .trueWord "true" ⟨1, 40⟩, .endMark ⟨1, 44⟩]

theorem scan_overflowText (sink : Sink) :
    (sink.scan overflowText).1 = overflowFront ++ overflowNumeral :: overflowRest := by
  with_unfolding_all rfl

theorem exceeds_overflowNumeral : Exceeds overflowFront overflowNumeral "Integer literal" := by
  have zero : ExpressionWord [.spelled .intLiteral "0" ⟨1, 13⟩] (.literal (.integer 0) ⟨1, 13⟩) :=
    .operand (.literal (.integer rfl (.digit rfl) (by decide) (by decide)))
  have word := @StatementWord.scalar _ _ _ _ _ .int _ (rfl : (overflowFront[0]).kind = _)
    (rfl : (overflowFront[1]).kind = _) (rfl : (overflowFront[2]).kind = _)
    (rfl : (overflowFront[3]).kind = _) zero
  exact .operand ⟨_, [], _, rfl, word, .inl ⟨_, _, _, _, rfl⟩⟩ (by decide)

/-- The error spans the numeral, and the next attempt starts at `bl`. -/
theorem Sink.parse_scan_overflowText :
    let scanned := (Sink.empty none).scan overflowText
    ∃ (error : SyntaxError) (next : Cursor),
      (Cursor.start scanned.1).attempts = .rejected error :: next.attempts ∧
      next.ahead = overflowRest ∧
      ∃ d ∈ (scanned.2.parse scanned.1).2.records,
        d.message = "Integer literal is out of range, found '9223372036854775808'" ∧
        d.location = ⟨1, 13⟩ ∧ d.endColumn = 31 := by
  intro scanned
  have tokens := scan_overflowText (.empty none)
  obtain ⟨-, -, fails⟩ := Sink.parse_scan_integers (.empty none) overflowText
  obtain ⟨-, error, next, d, -, ahead, attempts, records, -, message, place, ends⟩ :=
    fails [] _ [] overflowFront overflowNumeral overflowRest _ .here tokens (by simp) rfl
      exceeds_overflowNumeral
  refine ⟨error, next, attempts, ahead, scanned.2.stamp d, ?_, message, place, ends⟩
  exact records ▸ List.mem_append_right _ (List.mem_map_of_mem List.mem_cons_self)

end Quill
