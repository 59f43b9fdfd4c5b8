import Quill.Proofs.Grammar.Locality
import Quill.Proofs.Grammar.Statement

/-!
Completion: a reader that fails has passed the start of a word of the grammar. It stops at the token
that does not fit, and passes none that no word could have there (`Reader.completable_statement`).
-/
namespace Quill

/-- A phrase of two fails in its first part or, where that is read, in its second. -/
theorem Outcome.andThen_eq_failed_iff {α β : Type} {first : Outcome α}
    {next : α → List Token → Outcome β} {cause : SyntaxCause} {rest : List Token} :
    first.andThen next = .failed cause rest ↔
      first = .failed cause rest ∨
        ∃ a mid, first = .done a mid ∧ next a mid = .failed cause rest := by
  cases first with
  | done a mid =>
    constructor
    · intro h
      exact .inr ⟨a, mid, rfl, h⟩
    · intro h
      obtain failed | ⟨_, _, same, h⟩ := h
      · cases failed
      · cases same
        exact h
  | failed => simp

/-- A token of a kind. As a numeral it is a zero. -/
def Token.sample (kind : TokenKind) : Token := .spelled kind "0" .start

namespace Reader

open Token (sample)

variable {α β : Type} {tokens : List Token}

/-- What the reader passes before it fails on `tokens` can be completed to a phrase. -/
def Completes (reader : Reader α) (Phrase : List Token → Prop) (tokens : List Token) : Prop :=
  ∀ cause rest, reader tokens = .failed cause rest →
    ∃ passed more, tokens = passed ++ rest ∧ Phrase (passed ++ more)

/-- Tokens that are a word, whatever it stands for. -/
def IsWord (Word : List Token → α → Prop) (word : List Token) : Prop := ∃ value, Word word value

/-- A reader of one token: it fails in front of any token that will not do. -/
structure ReadsToken (reader : Reader α) (Fits : Token → α → Prop) : Prop where
  fits : ∃ t value, Fits t value
  done : ∀ tokens value rest, reader tokens = .done value rest →
    ∃ t, tokens = t :: rest ∧ Fits t value
  failed : ∀ tokens cause rest, reader tokens = .failed cause rest → rest = tokens

/-- A reader of one token passes none when it fails. -/
theorem rest_of_token_failed {cause cause' : SyntaxCause} {make? : Token → Option α}
    {rest : List Token} (h : token cause make? tokens = .failed cause' rest) : rest = tokens := by
  unfold token at h
  split at h
  · cases h
    rfl
  · split at h <;> cases h
    rfl

/-- Some token must do, or there would be no phrase to complete anything to. -/
theorem readsToken_token (cause : SyntaxCause) {make? : Token → Option α} {t : Token} {value : α}
    (made : make? t = some value) :
    ReadsToken (token cause make?) fun t value => make? t = some value where
  fits := ⟨t, value, made⟩
  done _ _ _ := token_eq_done_iff.mp
  failed _ _ _ := rest_of_token_failed

theorem readsToken_expect (cause : SyntaxCause) (kind : TokenKind) :
    ReadsToken (expect cause kind) fun t _ => t.kind = kind where
  fits := ⟨sample kind, (), rfl⟩
  done _ _ _ := expect_eq_done_iff.mp
  failed _ _ _ := rest_of_token_failed

theorem readsToken_identifier (cause : SyntaxCause) :
    ReadsToken (identifier cause) fun t name => t.kind = .identifier ∧ t.lexeme = name where
  fits := ⟨sample .identifier, _, rfl, rfl⟩
  done _ _ _ := identifier_eq_done_iff.mp
  failed _ _ _ := rest_of_token_failed

theorem readsToken_typeName (cause : SyntaxCause) :
    ReadsToken (typeName cause) fun t type => t.kind = type.kind where
  fits := ⟨sample .intType, .int, rfl⟩
  done _ _ _ := typeName_eq_done_iff.mp
  failed _ _ _ := rest_of_token_failed

/-- The size that is made up is 0, which is in range. -/
theorem readsToken_arraySize :
    ReadsToken arraySize fun t size => t.kind = .intLiteral ∧
      Numeral.Unsigned t.lexeme.toList size ∧ size < 2 ^ 64 where
  fits := ⟨sample .intLiteral, 0, rfl, .bare (Numeral.digits_toString 0), by decide⟩
  done _ _ _ := arraySize_eq_done_iff.mp
  failed tokens cause rest h := by
    unfold arraySize at h
    split at h
    · cases h
      rfl
    split at h
    · cases h
      rfl
    split at h <;> cases h
    rfl

theorem rest_of_close_failed {cause cause' : SyntaxCause} {kind : TokenKind} {value : α}
    {rest : List Token} (h : close cause kind value tokens = .failed cause' rest) :
    rest = tokens := by
  rcases Outcome.andThen_eq_failed_iff.mp h with failed | ⟨_, mid, read, failed⟩
  · exact rest_of_token_failed failed
  · cases failed

/-- An operand for any place that wants one. -/
theorem isWord_operand : IsWord OperandWord [sample .identifier] := ⟨_, .identifier rfl⟩

/-- Behind a bracket that opens, the inner phrase is completed and the closing token is added. -/
private theorem operand_completes_step
    (ih : ∀ fewer : List Token, fewer.length < tokens.length →
      Completes expression (IsWord ExpressionWord) fewer ∧
        Completes elements (IsWord ArrayTail) fewer) :
    Completes operand (IsWord OperandWord) tokens := by
  intro cause rest h
  cases tokens with
  | nil =>
    rw [operand_nil] at h
    cases h
    exact ⟨[], _, rfl, isWord_operand⟩
  | cons t more =>
    rw [operand_eq_cons] at h
    split at h
    · cases h
    · cases h
      exact ⟨[], _, rfl, isWord_operand⟩
    split at h
    · cases h
    split at h
    · next opening =>
      rcases Outcome.andThen_eq_failed_iff.mp h with failed | ⟨inner, mid, read, failed⟩
      · obtain ⟨passed, others, rfl, e, word⟩ := (ih more (by simp)).1 _ _ failed
        refine ⟨t :: passed, others ++ [sample .parenClose], rfl, e, ?_⟩
        rw [List.cons_append, ← List.append_assoc]
        exact .parens opening word rfl
      · obtain rfl := rest_of_close_failed failed
        obtain ⟨word, rfl, hword⟩ := expression_word _ _ _ read
        exact ⟨t :: word, [sample .parenClose], rfl, inner, .parens opening hword rfl⟩
    split at h
    · next opening =>
      rcases Outcome.andThen_eq_failed_iff.mp h with failed | ⟨es, mid, read, failed⟩
      · obtain ⟨passed, others, rfl, es, word⟩ := (ih more (by simp)).2 _ _ failed
        exact ⟨t :: passed, others, rfl, _, .array (word t opening)⟩
      · cases failed
    · cases h
      exact ⟨[], _, rfl, isWord_operand⟩

/-- In front of an operator that has no right side there is a word already. -/
private theorem expression_completes_step
    (hoperand : Completes operand (IsWord OperandWord) tokens)
    (ih : ∀ fewer : List Token, fewer.length < tokens.length →
      Completes expression (IsWord ExpressionWord) fewer) :
    Completes expression (IsWord ExpressionWord) tokens := by
  intro cause rest h
  rw [expression_eq] at h
  rcases Outcome.andThen_eq_failed_iff.mp h with failed | ⟨left, mid, read, after⟩
  · obtain ⟨passed, others, rfl, e, word⟩ := hoperand _ _ failed
    exact ⟨passed, others, rfl, e, .operand word⟩
  obtain ⟨word, rfl, hleft⟩ := operand_word _ _ _ read
  unfold afterOperand at after
  split at after
  · cases after
  next t more =>
    split at after
    · cases after
    next operator kind =>
      rcases Outcome.andThen_eq_failed_iff.mp after with failed | ⟨right, last, read, made⟩
      · obtain ⟨passed, others, rfl, right, hright⟩ := ih more (by simp; omega) _ _ failed
        refine ⟨word ++ t :: passed, others, by simp, left.binary operator right t.location, ?_⟩
        rw [List.append_assoc, List.cons_append]
        exact .binary hleft (Operator.ofKind?_eq_some_iff.mp kind) hright
      · cases made

/-- The reader takes the closing bracket with the elements, so they are completed with it. -/
private theorem someElements_completes_step
    (hexpression : Completes expression (IsWord ExpressionWord) tokens)
    (ih : ∀ fewer : List Token, fewer.length < tokens.length →
      Completes someElements (IsWord ClosedElements) fewer) :
    Completes someElements (IsWord ClosedElements) tokens := by
  intro cause rest h
  -- one element, and the bracket that closes the array
  have closed : ∀ {word : List Token} {e : Expr}, ExpressionWord word e →
      IsWord ClosedElements (word ++ [sample .bracketClose]) :=
    fun word => ⟨_, _, _, rfl, .one word, rfl⟩
  rw [someElements_eq] at h
  rcases Outcome.andThen_eq_failed_iff.mp h with failed | ⟨first, mid, read, after⟩
  · obtain ⟨passed, others, rfl, e, word⟩ := hexpression _ _ failed
    refine ⟨passed, others ++ [sample .bracketClose], rfl, ?_⟩
    rw [← List.append_assoc]
    exact closed word
  obtain ⟨word, rfl, hfirst⟩ := expression_word _ _ _ read
  unfold afterElement at after
  split at after
  · cases after
    exact ⟨word, _, rfl, closed hfirst⟩
  next t more =>
    split at after
    · next comma =>
      rcases Outcome.andThen_eq_failed_iff.mp after with failed | ⟨others, left, read, made⟩
      · obtain ⟨passed, others, rfl, es, inner, last, same, hinner, closing⟩ :=
          ih more (by simp; omega) _ _ failed
        refine ⟨word ++ t :: passed, others, by simp, first :: es, word ++ t :: inner, last, ?_,
          .more hfirst comma hinner, closing⟩
        simp [same]
      · cases made
    split at after
    · cases after
    · cases after
      exact ⟨word, _, rfl, closed hfirst⟩

private theorem elements_completes_step
    (hsome : Completes someElements (IsWord ClosedElements) tokens) :
    Completes elements (IsWord ArrayTail) tokens := by
  intro cause rest h
  rw [elements_eq] at h
  split at h
  · cases h
    exact ⟨[], [sample .bracketClose], rfl, [], fun first opening => .empty opening rfl⟩
  next t more =>
    split at h
    · cases h
    · obtain ⟨passed, others, same, es, inner, last, whole, hinner, closing⟩ := hsome _ _ h
      refine ⟨passed, others, same, es, fun first opening => ?_⟩
      rw [whole]
      exact .some opening hinner closing

/-- All four readers together, by the induction of their recursion. -/
private theorem readings_complete (tokens : List Token) :
    Completes operand (IsWord OperandWord) tokens ∧
      Completes expression (IsWord ExpressionWord) tokens ∧
      Completes someElements (IsWord ClosedElements) tokens ∧
      Completes elements (IsWord ArrayTail) tokens :=
  reading_induction _ _ _ _ (fun _ => operand_completes_step) (fun _ => expression_completes_step)
    (fun _ => someElements_completes_step) (fun _ => elements_completes_step) tokens

/-- There is a phrase, and what the reader passes before it fails can always be completed to one. -/
structure Completable (reader : Reader α) (Phrase : List Token → Prop) : Prop where
  phrase : ∃ word, Phrase word
  completes : ∀ tokens, Completes reader Phrase tokens

/-- Nothing fails here; there only has to be a phrase. -/
theorem completable_pure {value : α} {Phrase : List Token → Prop} (h : Phrase []) :
    Completable (pure value) Phrase :=
  ⟨⟨[], h⟩, fun _ _ _ failed => nomatch failed⟩

/-- The second reader must be completable behind every word of the first one. Where the first one
fails, its word is made up, and what follows it has to be made up as well. -/
theorem completable_bind {first : Reader α} {next : α → Reader β} {Word : List Token → α → Prop}
    {Phrase : List Token → Prop} (gives : ∀ tokens, GivesWords first Word tokens)
    (hfirst : Completable first (IsWord Word))
    (hnext : ∀ word value, Word word value →
      Completable (next value) fun more => Phrase (word ++ more)) :
    Completable (first >>= next) Phrase := by
  constructor
  · obtain ⟨word, value, hword⟩ := hfirst.phrase
    obtain ⟨more, phrase⟩ := (hnext word value hword).phrase
    exact ⟨word ++ more, phrase⟩
  · intro tokens cause rest h
    rcases Outcome.andThen_eq_failed_iff.mp h with failed | ⟨value, mid, read, failed⟩
    · obtain ⟨passed, others, rfl, value, word⟩ := hfirst.completes _ _ _ failed
      obtain ⟨more, phrase⟩ := (hnext _ value word).phrase
      rw [List.append_assoc] at phrase
      exact ⟨passed, others ++ more, rfl, phrase⟩
    · obtain ⟨word, rfl, hword⟩ := gives _ _ _ read
      obtain ⟨passed, more, rfl, phrase⟩ := (hnext word value hword).completes _ _ _ failed
      refine ⟨word ++ passed, more, by simp, ?_⟩
      rw [List.append_assoc]
      exact phrase

/-- A reader that goes on after one token. -/
theorem ReadsToken.bind {first : Reader α} {next : α → Reader β} {Fits : Token → α → Prop}
    {Phrase : List Token → Prop} (h : ReadsToken first Fits)
    (hnext : ∀ t value, Fits t value → Completable (next value) fun more => Phrase (t :: more)) :
    Completable (first >>= next) Phrase := by
  refine @completable_bind _ _ _ _ (fun word value => ∃ t, word = [t] ∧ Fits t value) _ ?_ ?_ ?_
  · intro tokens value rest read
    obtain ⟨t, rfl, fits⟩ := h.done _ _ _ read
    exact ⟨[t], rfl, t, rfl, fits⟩
  · obtain ⟨t, value, fits⟩ := h.fits
    refine ⟨⟨[t], value, t, rfl, fits⟩, fun tokens cause rest failed => ?_⟩
    obtain rfl := h.failed _ _ _ failed
    exact ⟨[], [t], rfl, value, t, rfl, fits⟩
  · rintro word value ⟨t, rfl, fits⟩
    exact hnext t value fits

theorem completable_expression : Completable expression (IsWord ExpressionWord) :=
  have ⟨e, word⟩ := isWord_operand
  ⟨⟨_, e, .operand word⟩, fun tokens => (readings_complete tokens).2.1⟩

theorem completable_elements : Completable elements (IsWord ArrayTail) :=
  ⟨⟨[sample .bracketClose], [], fun _ opening => .empty opening rfl⟩,
    fun tokens => (readings_complete tokens).2.2.2⟩

theorem completable_arrayLiteral : Completable arrayLiteral (IsWord ArrayWord) := by
  have opens : ReadsToken (token .arrayLiteral fun t =>
      if t.kind = .bracketOpen then some t.location else none) _ :=
    readsToken_token _ (t := sample .bracketOpen) rfl
  refine opens.bind fun first location opening =>
    completable_bind elements_word completable_elements fun word es tail =>
      completable_pure ⟨.array es first.location, ?_⟩
  split at opening
  · next kind => simpa using tail first kind
  · cases opening

/-- What makes a marker after an opening brace. -/
def MarkerTail (word : List Token) (_piece : Segment) : Prop :=
  ∃ name last, word = [name, last] ∧ name.kind = .identifier ∧ last.kind = .braceClose

theorem marker_word (tokens : List Token) : GivesWords marker MarkerTail tokens := by
  intro piece rest h
  unfold marker at h
  simp only [bind_eq_done_iff, token_eq_done_iff, expect_eq_done_iff] at h
  obtain ⟨name, _, ⟨_, rfl, named⟩, _, _, ⟨last, rfl, closing⟩, made⟩ := h
  cases made
  split at named
  · next kind => cases named; exact ⟨[name, last], rfl, name, last, rfl, kind, closing⟩
  · cases named

theorem completable_marker : Completable marker (IsWord MarkerTail) := by
  have reads : ReadsToken (token .markerName fun t =>
      if t.kind = .identifier then some t else none) _ :=
    readsToken_token _ (t := sample .identifier) rfl
  refine reads.bind fun name _ named => (readsToken_expect _ _).bind fun last _ closing =>
    completable_pure ⟨.marker name.lexeme name.location, name, last, rfl, ?_, closing⟩
  split at named
  · next kind => exact kind
  · cases named

/-- Pieces of a content that start with one piece. -/
private theorem segments_completes_step {t : Token} {piece : Reader Segment}
    {Word : List Token → Segment → Prop} (read : segments (t :: tokens) = pieceAndMore piece tokens)
    (gives : GivesWords piece Word tokens) (hpiece : Completes piece (IsWord Word) tokens)
    (ih : ∀ fewer : List Token, fewer.length ≤ tokens.length →
      Completes segments (IsWord ContentWord) fewer)
    (onward : ∀ word first more, Word word first → IsWord ContentWord more →
      IsWord ContentWord (t :: (word ++ more))) :
    Completes segments (IsWord ContentWord) (t :: tokens) := by
  intro cause rest h
  rw [read] at h
  rcases Outcome.andThen_eq_failed_iff.mp h with failed | ⟨first, mid, read, failed⟩
  · obtain ⟨passed, others, rfl, first, word⟩ := hpiece _ _ failed
    have content := onward _ first [] word ⟨[], .nil⟩
    rw [List.append_nil] at content
    exact ⟨t :: passed, others, rfl, content⟩
  · obtain ⟨word, rfl, hword⟩ := gives _ _ read
    rcases Outcome.andThen_eq_failed_iff.mp failed with failed | ⟨_, _, _, made⟩
    · obtain ⟨passed, others, rfl, content⟩ := ih mid (by simp) _ _ failed
      refine ⟨t :: (word ++ passed), others, by simp, ?_⟩
      rw [List.cons_append, List.append_assoc]
      exact onward word first _ hword content
    · cases made

/-- There is always a content to complete to, the empty one. -/
theorem completable_segments : Completable segments (IsWord ContentWord) := by
  refine ⟨⟨[], [], .nil⟩, fun tokens => ?_⟩
  induction size : tokens.length using Nat.strongRecOn generalizing tokens with
  | ind n ih =>
    subst size
    cases tokens with
    | nil =>
      intro cause rest h
      cases h
    | cons t more =>
      have shorter : ∀ fewer : List Token, fewer.length ≤ more.length →
          Completes segments (IsWord ContentWord) fewer :=
        fun fewer h => ih fewer.length (Nat.lt_succ_of_le h) fewer rfl
      by_cases opening : t.kind = .braceOpen
      · refine segments_completes_step (segments_of_open opening more) (marker_word more)
          (completable_marker.completes more) shorter ?_
        rintro _ _ content ⟨name, last, rfl, kind, closing⟩ ⟨pieces, h⟩
        exact ⟨_, .marker opening kind closing h⟩
      by_cases ending : t.kind = .bracketClose ∨ t.kind = .endOfInput
      · intro cause rest h
        rw [segments.eq_def] at h
        rcases ending with kind | kind <;> simp [kind] at h
      · obtain ⟨notClose, notMark⟩ := not_or.mp ending
        have gives : GivesWords (pure (Segment.text t.lexeme)) (fun word _ => word = []) more := by
          intro _ rest h
          cases h
          exact ⟨[], rfl, rfl⟩
        have succeeds : Completes (pure (Segment.text t.lexeme))
            (IsWord fun word (_ : Segment) => word = []) more :=
          (completable_pure ⟨.text t.lexeme, rfl⟩).completes more
        refine segments_completes_step (segments_of_text opening notClose notMark more) gives
          succeeds shorter ?_
        rintro _ _ content rfl ⟨pieces, h⟩
        exact ⟨_, .text opening notClose notMark h⟩

/-- The tokens of a content, whatever its interpolation. -/
def ContentTokens (word : List Token) (_content : Interpolation) : Prop := IsWord ContentWord word

theorem content_word (tokens : List Token) : GivesWords content ContentTokens tokens := by
  intro _ rest h
  obtain ⟨pieces, read, -⟩ := content_eq_done_iff.mp h
  obtain ⟨word, same, hword⟩ := segments_word read
  exact ⟨word, same, pieces, hword⟩

theorem completable_content : Completable content (IsWord ContentTokens) := by
  have blank : Interpolation := ⟨[], [], .start⟩
  refine ⟨⟨[], blank, [], .nil⟩, fun tokens cause rest h => ?_⟩
  rcases Outcome.andThen_eq_failed_iff.mp h with failed | ⟨_, _, _, made⟩
  · obtain ⟨passed, more, same, word⟩ := completable_segments.completes _ _ _ failed
    exact ⟨passed, more, same, blank, word⟩
  · cases made

/-- Tokens that make a statement with those in front of them. -/
def StatementAfter (front word : List Token) : Prop := IsWord StatementWord (front ++ word)

section Statement

variable {new name first : Token} (hnew : new.kind = .new) (hname : name.kind = .identifier)

include hnew hname

/-- The statement begins in front of what this reader gets, so the phrase is told with the tokens
there. -/
theorem completable_scalarDeclaration :
    Completable (scalarDeclaration name.lexeme new.location) (StatementAfter [new, name]) := by
  refine (readsToken_typeName _).bind fun type tag htype =>
    (readsToken_expect _ _).bind fun equals _ hequals =>
      completable_bind expression_word completable_expression fun word value hvalue =>
        completable_pure ⟨.scalar name.lexeme tag value new.location, ?_⟩
  simpa using StatementWord.scalar hnew hname htype hequals hvalue

theorem completable_valuesDeclaration (opening : first.kind = .bracketOpen) :
    Completable (valuesDeclaration name.lexeme new.location)
      (StatementAfter [new, name, first]) := by
  refine (readsToken_expect _ _).bind fun last _ closing =>
    (readsToken_expect _ _).bind fun equals _ hequals =>
      completable_bind arrayLiteral_word completable_arrayLiteral fun word value hvalue =>
        completable_pure ⟨.array name.lexeme (.values value) new.location, ?_⟩
  simpa using StatementWord.values hnew hname opening closing hequals hvalue

theorem completable_sizedDeclaration (hfirst : first.kind = .braceOpen) :
    Completable (sizedDeclaration name.lexeme new.location)
      (StatementAfter [new, name, first]) := by
  refine (readsToken_typeName _).bind fun type tag htype =>
    (readsToken_expect _ _).bind fun last _ hlast =>
      (readsToken_expect _ _).bind fun opening _ hopening =>
        readsToken_arraySize.bind fun count size hsize =>
          (readsToken_expect _ _).bind fun closing _ hclosing =>
            completable_pure ⟨.array name.lexeme (.sized tag size) new.location, ?_⟩
  obtain ⟨hcount, text, bound⟩ := hsize
  exact .sized hnew hname hfirst htype hlast hopening hcount text bound hclosing

omit hname in
/-- Which reader goes on is told by the token behind the name, which is not passed yet, so this is
no bind of readers of tokens and the cases follow the choice. -/
theorem completable_declaration :
    Completable (declaration new.location) (StatementAfter [new]) := by
  have scalar : ∀ name : Token, name.kind = .identifier → Completable
      (scalarDeclaration name.lexeme new.location) (StatementAfter [new, name]) :=
    fun _ => completable_scalarDeclaration hnew
  obtain ⟨sampled, phrase⟩ := (scalar (sample .identifier) rfl).phrase
  refine ⟨⟨sample .identifier :: sampled, phrase⟩, fun tokens cause rest h => ?_⟩
  rcases Outcome.andThen_eq_failed_iff.mp h with failed | ⟨_, _, read, _⟩
  · obtain rfl := rest_of_token_failed failed
    exact ⟨[], _, rfl, phrase⟩
  obtain ⟨name, rfl, hname, rfl⟩ := identifier_eq_done_iff.mp read
  -- the token after the name tells the three declarations from each other
  rw [declaration_of_front hname] at h
  split at h
  · next front =>
    obtain ⟨first, more, rfl, opening⟩ := exists_cons_of_front front
    obtain ⟨passed, others, rfl, phrase⟩ :=
      (completable_valuesDeclaration hnew hname opening).completes _ _ _ h
    exact ⟨name :: first :: passed, others, rfl, phrase⟩
  split at h
  · next front =>
    obtain ⟨first, more, rfl, hfirst⟩ := exists_cons_of_front front
    obtain ⟨passed, others, rfl, phrase⟩ :=
      (completable_sizedDeclaration hnew hname hfirst).completes _ _ _ h
    exact ⟨name :: first :: passed, others, rfl, phrase⟩
  · obtain ⟨passed, others, rfl, phrase⟩ := (scalar name hname).completes _ _ _ h
    exact ⟨name :: passed, others, rfl, phrase⟩

end Statement

theorem completable_flagDeclaration {bl : Token} (hbl : bl.kind = .bl) :
    Completable (flagDeclaration bl.location) (StatementAfter [bl]) := by
  refine (readsToken_identifier _).bind fun name text hname =>
    (readsToken_expect _ _).bind fun equals _ hequals =>
      completable_bind expression_word completable_expression fun word value hvalue =>
        completable_pure ⟨.scalar name.lexeme .bool value bl.location, ?_⟩
  simpa using StatementWord.flag hbl hname.1 hequals hvalue

theorem completable_output {stdout : Token} (hstdout : stdout.kind = .stdout) :
    Completable (output stdout.location) (StatementAfter [stdout]) := by
  refine (readsToken_expect _ _).bind fun opening _ hopening =>
    completable_bind content_word completable_content fun word _ hcontent =>
      (readsToken_expect _ _).bind fun closing _ hclosing => completable_pure ?_
  obtain ⟨pieces, hcontent⟩ := hcontent
  obtain ⟨first, hfirst, -⟩ := head?_content word closing
  exact ⟨_, .output hstdout hopening hcontent hclosing hfirst⟩

/-- The reader of statements passes only tokens that start a statement. -/
theorem completable_statement : Completable statement (IsWord StatementWord) := by
  have declaration := completable_declaration (rfl : (sample .new).kind = .new)
  obtain ⟨sampled, phrase⟩ := declaration.phrase
  refine ⟨⟨sample .new :: sampled, phrase⟩, fun tokens cause rest h => ?_⟩
  have other : rest = tokens → ∃ passed more, tokens = passed ++ rest ∧
      IsWord StatementWord (passed ++ more) := by
    rintro rfl
    exact ⟨[], _, rfl, phrase⟩
  unfold statement at h
  split at h
  · cases h
    exact other rfl
  next t more =>
    split at h
    · next kind =>
      obtain ⟨passed, others, rfl, phrase⟩ := (completable_declaration kind).completes _ _ _ h
      exact ⟨t :: passed, others, rfl, phrase⟩
    · next kind =>
      obtain ⟨passed, others, rfl, phrase⟩ := (completable_flagDeclaration kind).completes _ _ _ h
      exact ⟨t :: passed, others, rfl, phrase⟩
    · next kind =>
      obtain ⟨passed, others, rfl, phrase⟩ := (completable_output kind).completes _ _ _ h
      exact ⟨t :: passed, others, rfl, phrase⟩
    · cases h
      exact other rfl

end Reader

end Quill
