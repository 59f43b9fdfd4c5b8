import Quill.Proofs.Grammar.Content
import Quill.Proofs.Grammar.Expression

/-!
The reader of statements and the grammar. A statement that is read is a word of the grammar
(`statement_word`), and every word is read in front of tokens that do not carry an expression on
(`StatementWord.read`).
-/
namespace Quill

namespace Reader

variable {tokens rest : List Token} {name : String} {location : Location} {stmt : Stmt}

theorem arrayLiteral_eq_done_iff {e : Expr} :
    arrayLiteral tokens = .done e rest ↔
      ∃ first more es, tokens = first :: more ∧ first.kind = .bracketOpen ∧
        elements more = .done es rest ∧ e = .array es first.location := by
  unfold arrayLiteral
  simp only [bind_eq_done_iff, token_eq_done_iff, pure_eq_done_iff]
  constructor
  · intro h
    obtain ⟨place, more, ⟨first, rfl, opening⟩, es, mid, read, rfl, rfl⟩ := h
    split at opening
    · next kind => cases opening; exact ⟨first, more, es, rfl, kind, read, rfl⟩
    · cases opening
  · intro h
    obtain ⟨first, more, es, rfl, kind, read, rfl⟩ := h
    exact ⟨first.location, more, ⟨first, rfl, by simp [kind]⟩, es, rest, read, rfl, rfl⟩

theorem arrayLiteral_word (tokens : List Token) : GivesWords arrayLiteral ArrayWord tokens := by
  intro e rest h
  obtain ⟨first, more, es, rfl, opening, read, rfl⟩ := arrayLiteral_eq_done_iff.mp h
  obtain ⟨word, rfl, hword⟩ := elements_word more es rest read
  exact ⟨first :: word, rfl, hword first opening⟩

/-- Goes on after `new name`: a word follows the two tokens. -/
theorem scalarDeclaration_word {new nameToken : Token} (hnew : new.kind = .new)
    (hname : nameToken.kind = .identifier)
    (h : scalarDeclaration nameToken.lexeme new.location tokens = .done stmt rest) :
    ∃ word, tokens = word ++ rest ∧ StatementWord (new :: nameToken :: word) stmt := by
  unfold scalarDeclaration at h
  simp only [bind_eq_done_iff, typeName_eq_done_iff, expect_eq_done_iff, pure_eq_done_iff] at h
  obtain ⟨tag, _, ⟨type, rfl, htype⟩, _, _, ⟨equals, rfl, hequals⟩, value, _, read, rfl, rfl⟩ := h
  obtain ⟨word, rfl, hvalue⟩ := expression_word _ _ _ read
  exact ⟨type :: equals :: word, rfl, .scalar hnew hname htype hequals hvalue⟩

theorem valuesDeclaration_word {new nameToken first : Token} (hnew : new.kind = .new)
    (hname : nameToken.kind = .identifier) (opening : first.kind = .bracketOpen)
    (h : valuesDeclaration nameToken.lexeme new.location tokens = .done stmt rest) :
    ∃ word, tokens = word ++ rest ∧ StatementWord (new :: nameToken :: first :: word) stmt := by
  unfold valuesDeclaration at h
  simp only [bind_eq_done_iff, expect_eq_done_iff, pure_eq_done_iff] at h
  obtain ⟨_, _, ⟨last, rfl, closing⟩, _, _, ⟨equals, rfl, hequals⟩, value, _, read, rfl, rfl⟩ := h
  obtain ⟨word, rfl, hvalue⟩ := arrayLiteral_word _ _ _ read
  exact ⟨last :: equals :: word, rfl, .values hnew hname opening closing hequals hvalue⟩

theorem sizedDeclaration_word {new nameToken first : Token} (hnew : new.kind = .new)
    (hname : nameToken.kind = .identifier) (hfirst : first.kind = .braceOpen)
    (h : sizedDeclaration nameToken.lexeme new.location tokens = .done stmt rest) :
    ∃ word, tokens = word ++ rest ∧ StatementWord (new :: nameToken :: first :: word) stmt := by
  unfold sizedDeclaration at h
  simp only [bind_eq_done_iff, typeName_eq_done_iff, expect_eq_done_iff, arraySize_eq_done_iff,
    pure_eq_done_iff] at h
  obtain ⟨tag, _, ⟨type, rfl, htype⟩, _, _, ⟨last, rfl, hlast⟩, _, _, ⟨opening, rfl, hopening⟩,
    size, _, ⟨count, rfl, hcount, text, bound⟩, _, _, ⟨closing, rfl, hclosing⟩, rfl, rfl⟩ := h
  exact ⟨[type, last, opening, count, closing], rfl,
    .sized hnew hname hfirst htype hlast hopening hcount text bound hclosing⟩

/-- A token list that starts with a token of a kind. -/
theorem exists_cons_of_front {kind : TokenKind} (h : tokens.head?.map (·.kind) = some kind) :
    ∃ first more, tokens = first :: more ∧ first.kind = kind := by
  cases tokens with
  | nil => cases h
  | cons first more => exact ⟨first, more, rfl, Option.some.inj h⟩

theorem declaration_word {new : Token} (hnew : new.kind = .new)
    (h : declaration new.location tokens = .done stmt rest) :
    ∃ word, tokens = word ++ rest ∧ StatementWord (new :: word) stmt := by
  unfold declaration at h
  simp only [bind_eq_done_iff, identifier_eq_done_iff] at h
  obtain ⟨_, mid, ⟨nameToken, rfl, hname, rfl⟩, front, _, hfront, h⟩ := h
  cases hfront
  split at h
  · next bracket =>
    obtain ⟨first, more, rfl, opening⟩ := exists_cons_of_front bracket
    obtain ⟨_, _, passed, h⟩ := bind_eq_done_iff.mp h
    cases passed
    obtain ⟨word, same, hword⟩ := valuesDeclaration_word hnew hname opening h
    exact ⟨nameToken :: first :: word, congrArg (nameToken :: first :: ·) same, hword⟩
  split at h
  · next brace =>
    obtain ⟨first, more, rfl, hfirst⟩ := exists_cons_of_front brace
    obtain ⟨_, _, passed, h⟩ := bind_eq_done_iff.mp h
    cases passed
    obtain ⟨word, same, hword⟩ := sizedDeclaration_word hnew hname hfirst h
    exact ⟨nameToken :: first :: word, congrArg (nameToken :: first :: ·) same, hword⟩
  · obtain ⟨word, same, hword⟩ := scalarDeclaration_word hnew hname h
    exact ⟨nameToken :: word, congrArg (nameToken :: ·) same, hword⟩

theorem flagDeclaration_word {bl : Token} (hbl : bl.kind = .bl)
    (h : flagDeclaration bl.location tokens = .done stmt rest) :
    ∃ word, tokens = word ++ rest ∧ StatementWord (bl :: word) stmt := by
  unfold flagDeclaration at h
  simp only [bind_eq_done_iff, identifier_eq_done_iff, expect_eq_done_iff, pure_eq_done_iff] at h
  obtain ⟨_, _, ⟨nameToken, rfl, hname, rfl⟩, _, _, ⟨equals, rfl, hequals⟩, value, _, read, rfl,
    rfl⟩ := h
  obtain ⟨word, rfl, hvalue⟩ := expression_word _ _ _ read
  exact ⟨nameToken :: equals :: word, rfl, .flag hbl hname hequals hvalue⟩

/-- The front token of a content is that of the content with its closing bracket. -/
theorem head?_content (word : List Token) (closing : Token) :
    ∃ first, (word ++ [closing]).head? = some first ∧
      ∀ rest, (word ++ closing :: rest).head? = some first := by
  cases word with
  | nil => exact ⟨closing, rfl, fun _ => rfl⟩
  | cons first more => exact ⟨first, rfl, fun _ => rfl⟩

theorem output_word {stdout : Token} (hstdout : stdout.kind = .stdout)
    (h : output stdout.location tokens = .done stmt rest) :
    ∃ word, tokens = word ++ rest ∧ StatementWord (stdout :: word) stmt := by
  unfold output at h
  simp only [bind_eq_done_iff, expect_eq_done_iff, pure_eq_done_iff, content_eq_done_iff] at h
  obtain ⟨_, mid, ⟨opening, rfl, hopening⟩, _, _, ⟨pieces, read, rfl⟩, _, _,
    ⟨closing, rfl, hclosing⟩, rfl, rfl⟩ := h
  obtain ⟨word, rfl, hcontent⟩ := segments_word read
  obtain ⟨first, hfirst, front⟩ := head?_content word closing
  refine ⟨opening :: (word ++ [closing]), by simp, ?_⟩
  rw [front]
  exact .output hstdout hopening hcontent hclosing hfirst

/-- What the reader of statements takes is a word. -/
theorem statement_word (tokens : List Token) : GivesWords statement StatementWord tokens := by
  intro stmt rest h
  unfold statement at h
  split at h
  · cases h
  next t more =>
    have first : ∀ {word : List Token}, more = word ++ rest ∧ StatementWord (t :: word) stmt →
        ∃ word, t :: more = word ++ rest ∧ StatementWord word stmt := by
      rintro word ⟨rfl, hword⟩
      exact ⟨t :: word, rfl, hword⟩
    split at h
    · next kind => exact (declaration_word kind h).elim fun _ => first
    · next kind => exact (flagDeclaration_word kind h).elim fun _ => first
    · next kind => exact (output_word kind h).elim fun _ => first
    · cases h

theorem declaration_of_front {new nameToken : Token} (hname : nameToken.kind = .identifier) :
    declaration new.location (nameToken :: tokens) =
      if tokens.head?.map (·.kind) = some .bracketOpen then
        valuesDeclaration nameToken.lexeme new.location tokens.tail
      else if tokens.head?.map (·.kind) = some .braceOpen then
        sizedDeclaration nameToken.lexeme new.location tokens.tail
      else scalarDeclaration nameToken.lexeme new.location tokens := by
  unfold declaration
  rw [bind_of_done (identifier_of_kind hname)]
  refine (bind_of_done (rfl : front? tokens = .done _ tokens)).trans ?_
  split
  · rfl
  split <;> rfl

end Reader

open Reader in
/-- A word is read as its statement in front of tokens that do not carry an expression on. -/
theorem StatementWord.read {word : List Token} {stmt : Stmt} (h : StatementWord word stmt)
    {rest : List Token} (stops : Stops rest) :
    statement (word ++ rest) = .done stmt rest := by
  cases h with
  | scalar hnew hname htype hequals hvalue =>
    rename_i tag value
    have noBracket : tag.kind ≠ .bracketOpen := by cases tag <;> decide
    have noBrace : tag.kind ≠ .braceOpen := by cases tag <;> decide
    simp only [List.cons_append, statement, hnew]
    rw [declaration_of_front hname, if_neg (by simp [htype, noBracket]),
      if_neg (by simp [htype, noBrace])]
    unfold scalarDeclaration
    rw [bind_of_done (typeName_of_kind htype), bind_of_done (expect_of_kind hequals),
      bind_of_done (hvalue.read rest stops)]
    rfl
  | flag hbl hname hequals hvalue =>
    simp only [List.cons_append, statement, hbl]
    unfold flagDeclaration
    rw [bind_of_done (identifier_of_kind hname), bind_of_done (expect_of_kind hequals),
      bind_of_done (hvalue.read rest stops)]
    rfl
  | values hnew hname opening closing hequals hvalue =>
    obtain ⟨first, tail, es, rfl, rfl, hfirst, read⟩ := hvalue.read
    have array := arrayLiteral_eq_done_iff.mpr
      ⟨first, tail ++ rest, es, rfl, hfirst, read rest, rfl⟩
    simp only [List.cons_append, statement, hnew]
    rw [declaration_of_front hname, if_pos (by simp [opening]), List.tail_cons]
    unfold valuesDeclaration
    rw [bind_of_done (expect_of_kind closing), bind_of_done (expect_of_kind hequals),
      bind_of_done array]
    rfl
  | sized hnew hname hfirst htype hlast hopening hcount text bound hclosing =>
    simp only [List.cons_append, List.nil_append, statement, hnew]
    rw [declaration_of_front hname, if_neg (by simp [hfirst]), if_pos (by simp [hfirst]),
      List.tail_cons]
    unfold sizedDeclaration
    rw [bind_of_done (typeName_of_kind htype), bind_of_done (expect_of_kind hlast),
      bind_of_done (expect_of_kind hopening), bind_of_done (arraySize_of_kind hcount text bound),
      bind_of_done (expect_of_kind hclosing)]
    rfl
  | output hstdout hopening hcontent hclosing hfirst =>
    rename_i closing first word pieces
    obtain ⟨first', hfirst', front⟩ := head?_content word closing
    obtain rfl : first' = first := by simpa [hfirst'] using hfirst
    have ends : EndsContent (closing :: rest) := by
      intro t member
      cases member
      exact .inl hclosing
    have read := content_eq_done_iff.mpr ⟨pieces, hcontent.read ends, rfl⟩
    simp only [List.cons_append, List.append_assoc, List.nil_append, statement, hstdout]
    unfold Reader.output
    rw [bind_of_done (expect_of_kind hopening), bind_of_done read,
      bind_of_done (expect_of_kind hclosing), front]
    rfl

end Quill
