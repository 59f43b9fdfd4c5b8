import Quill.Proofs.Compilation.Phases
import Quill.Proofs.Lexeme.Origin
import Quill.Proofs.Report.Excerpt
import Quill.Proofs.Text.Lines
import Quill.Proofs.Typing.Blame

/-!
What the diagnostics of a compilation point at. Each points at the first character of the token that
it blames, at the backslash of an escape, or just past the end of the source; the carets of its
rendering stand below that place.
-/
namespace Quill

open Text

def Diagnostic.unlabelled (d : Diagnostic) : Diagnostic := { d with file := none }

/-- The token of a list that a diagnostic blames. -/
inductive Diagnostic.Blames (tokens : List Token) : Diagnostic → Token → Prop
  | lexical {error : LexicalError} {t : Token} (member : t ∈ tokens) (h : error.Blames t) :
      Blames tokens error.diagnostic t
  | syntactic {error : SyntaxError} {t : Token} (found : error ∈ (Parse.ofTokens tokens).errors)
      (h : error.blamed? = some t) : Blames tokens error.diagnostic t
  | semantic {error : SemanticError} {t : Token} (h : error.Blames tokens t) :
      Blames tokens error.diagnostic t
  | unread {site : Site} {t : Token} (place : t.location = site.place)
      (h : t.Declares tokens site.name) : Blames tokens site.warning t

theorem SyntaxError.mem_of_blamed? {tokens : List Token} {error : SyntaxError}
    (found : error ∈ (Parse.ofTokens tokens).errors) : ∃ t ∈ tokens, error.blamed? = some t := by
  obtain ⟨taken, account, -⟩ := (Cursor.start tokens).exists_account
  obtain ⟨inside, blamed⟩ := account.blames error found
  have there : tokens[error.blamedIndex]? = some tokens[error.blamedIndex] :=
    List.getElem?_eq_getElem inside
  exact ⟨_, List.getElem_mem inside, blamed.symm.trans there⟩

namespace Diagnostic.Blames

variable {tokens : List Token} {d : Diagnostic} {t : Token}

theorem mem (h : Blames tokens d t) : t ∈ tokens := by
  cases h with
  | lexical member => exact member
  | syntactic found h =>
    obtain ⟨blamed, member, same⟩ := SyntaxError.mem_of_blamed? found
    cases h.symm.trans same
    exact member
  | semantic h => exact h.member
  | unread _ h => exact h.mem

/-- A diagnostic points at the token that it blames. -/
theorem location_eq (h : Blames tokens d t) : d.location = t.location := by
  cases h with
  | lexical _ h =>
    cases h with
    | stray _ _ stands => exact stands.symm
    | unterminated _ stands => exact stands.symm
  | syntactic _ h =>
    rw [SyntaxError.diagnostic, h]
    rfl
  | semantic h => exact h.place.symm
  | unread place => exact place.symm

/-- Only errors of grammar blame the end mark. -/
theorem syntactic_of_endOfInput (h : Blames tokens d t) (kind : t.kind = .endOfInput) :
    ∃ error ∈ (Parse.ofTokens tokens).errors, d = error.diagnostic ∧ error.blamed? = some t := by
  cases h with
  | lexical _ h => cases h <;> simp_all
  | syntactic found h => exact ⟨_, found, rfl, h⟩
  | semantic h => exact absurd kind h.suits.kind_ne
  | unread _ h => exact absurd kind h.kind_ne

theorem column_le (h : Blames tokens d t) : d.location.column ≤ d.endColumn := by
  cases h with
  | lexical | semantic | unread => exact Nat.le_refl _
  | syntactic _ h =>
    rw [SyntaxError.diagnostic, h]
    exact Nat.le_max_right _ _

end Diagnostic.Blames

namespace Diagnostic

/-- The diagnostic blames a token whose text starts with `c`, and points there. -/
def AtToken (source : List Char) (tokens : List Token) (d : Diagnostic) (before : List Char)
    (c : Char) : Prop :=
  ∃ t, Blames tokens d.unlabelled t ∧ t.StartsAt source before c ∧ d.location = .past before

/-- The diagnostic is about an escape, and points at its backslash. -/
def AtEscape (source : List Char) (tokens : List Token) (d : Diagnostic) (before : List Char) :
    Prop :=
  ∃ c, EscapeAt source tokens before c ∧
    d.unlabelled = LexicalError.diagnostic ⟨.invalidEscape c, .past before⟩

/-- The diagnostic is an error of grammar that blames the end mark. -/
def AtEnd (source : List Char) (tokens : List Token) (d : Diagnostic) : Prop :=
  ∃ error ∈ (Parse.ofTokens tokens).errors, d.unlabelled = error.diagnostic ∧
    error.blamed? = some (.endMark (.past source))

/-- The place of a diagnostic, and what its plain rendering shows there. On a line of the source it
shows the line and the carets: the first one stands below the character that is blamed, or one past
the end of the last line. A diagnostic behind the last line is shown without its line. -/
structure Pointing (source : List Char) (tokens : List Token) (d : Diagnostic) : Prop where
  numbered : 1 ≤ d.location.line
  counted : 1 ≤ d.location.column
  ordered : d.location.column ≤ d.endColumn
  shown : d.location.line ≤ (lines source).length →
    ∃ echoed width above below, '\n' ∉ echoed ∧ d.Shows (lines source) echoed width above below ∧
      ((∃ before c, echoed[d.location.column - 1]? = some c ∧
        (d.AtToken source tokens before c ∨ c = '\\' ∧ d.AtEscape source tokens before)) ∨
      d.AtEnd source tokens ∧ d.location.line = (lines source).length ∧
        d.location.column = echoed.length + 1)
  hidden : (lines source).length < d.location.line →
    d.AtEnd source tokens ∧ source.getLast? = some '\n' ∧
      (d.render (lines source) false).toList = d.headText ++ d.suggestionText

namespace Pointing

variable {source : List Char} {tokens : List Token} {d : Diagnostic}

/-- A diagnostic at a character that is no blank. -/
theorem of_character {before rest : List Char} {c : Char} (place : d.location = .past before)
    (whole : source = before ++ c :: rest) (notBlank : c ∉ [' ', '\t', '\r', '\n'])
    (ordered : d.location.column ≤ d.endColumn)
    (blamed : d.AtToken source tokens before c ∨ c = '\\' ∧ d.AtEscape source tokens before) :
    Pointing source tokens d := by
  simp only [List.mem_cons, List.not_mem_nil, or_false, not_or] at notBlank
  obtain ⟨-, -, notReturn, notFeed⟩ := notBlank
  obtain ⟨line, found, character⟩ := @exists_line_past before c rest notFeed (.inl notReturn)
  rw [← whole, ← place] at found
  rw [← place] at character
  obtain ⟨numbered, counted⟩ := Location.one_le_past before
  rw [← place] at numbered counted
  obtain ⟨inside, -⟩ := List.getElem?_eq_some_iff.mp found
  obtain ⟨long, -⟩ := List.getElem?_eq_some_iff.mp character
  refine ⟨numbered, counted, ordered, fun _ => ?_, fun beyond => ?_⟩
  · obtain ⟨width, above, below, shows⟩ :=
      d.exists_shows numbered found (Nat.le_of_lt long) counted ordered
    have oneRow := feed_not_mem_of_mem_lines source line (List.mem_of_getElem? found)
    exact ⟨line, width, above, below, oneRow, shows, .inl ⟨before, c, character, blamed⟩⟩
  · omega

/-- A diagnostic at the end of a source that is not empty. -/
theorem of_end (place : d.location = .past source) (notEmpty : source ≠ [])
    (ordered : d.location.column ≤ d.endColumn) (blamed : d.AtEnd source tokens) :
    Pointing source tokens d := by
  obtain ⟨numbered, counted⟩ := Location.one_le_past source
  rw [← place] at numbered counted
  by_cases ended : source.getLast? = some '\n'
  · have beyond : (Location.past source).line = (lines source).length + 1 :=
      line_past_of_ended (by simp [ended])
    rw [← place] at beyond
    refine ⟨numbered, counted, ordered, fun _ => by omega, fun hidden => ?_⟩
    exact ⟨blamed, ended, toList_render_of_absent (.inr hidden)⟩
  · obtain ⟨last, line, found, column⟩ := exists_line_past_end notEmpty ended
    rw [← place] at last found column
    refine ⟨numbered, counted, ordered, fun _ => ?_, fun _ => by omega⟩
    obtain ⟨width, above, below, shows⟩ := d.exists_shows numbered found (by omega) counted ordered
    have oneRow := feed_not_mem_of_mem_lines source line (List.mem_of_getElem? found)
    exact ⟨line, width, above, below, oneRow, shows, .inr ⟨blamed, last, column⟩⟩

end Pointing

end Diagnostic

namespace Compilation

variable {file : Option String} {source : String}

/-- What is recorded is a finding of one of the phases, with the label of the sink. -/
theorem exists_finding (file : Option String) (source : String) :
    ∀ d ∈ (ofSource file source).sink.records,
      (∃ error ∈ (Scan.ofSource source).errors, d.unlabelled = error.diagnostic) ∨
      (∃ error ∈ (Parse.ofTokens (Scan.ofSource source).tokens).errors,
        d.unlabelled = error.diagnostic) ∨
      (∃ error ∈ (Stmt.checkAll .empty
          (Parse.ofTokens (Scan.ofSource source).tokens).program.statements).errors,
        d.unlabelled = error.diagnostic) ∨
      ∃ site, Stmt.DeclaredAt (Parse.ofTokens (Scan.ofSource source).tokens).program.statements
        site ∧ d.unlabelled = site.warning := by
  intro d recorded
  let statements := (Parse.ofTokens (Scan.ofSource source).tokens).program.statements
  obtain ⟨trace, h⟩ := Stmt.exists_trace statements
  let stamp := (Sink.empty file).stamp
  have unlabelled : ∀ found : Diagnostic, found.file = none → (stamp found).unlabelled = found := by
    intro found noLabel
    simp [stamp, Sink.stamp, Diagnostic.unlabelled, ← noLabel]
  have records : (ungated file source).sink.records =
      (((Scan.ofSource source).errors.map LexicalError.diagnostic).map stamp ++
        ((Parse.ofTokens (Scan.ofSource source).tokens).errors.map
          SyntaxError.diagnostic).map stamp) ++
      (((Stmt.checkAll .empty statements).errors.map SemanticError.diagnostic).map stamp ++
        ((Stmt.tableAfter statements).unused.map unusedWarning).map stamp) :=
    (readSink file source).records_analyse .empty _
  have member := (records_isPrefix file source).subset recorded
  rw [records, h.warnings_due] at member
  simp only [List.mem_append, List.mem_map] at member
  obtain (⟨_, ⟨error, found, rfl⟩, rfl⟩ | ⟨_, ⟨error, found, rfl⟩, rfl⟩) |
    (⟨_, ⟨error, found, rfl⟩, rfl⟩ | ⟨_, ⟨site, found, rfl⟩, rfl⟩) := member
  · exact .inl ⟨error, found, unlabelled _ rfl⟩
  · exact .inr (.inl ⟨error, found, unlabelled _ error.file_diagnostic⟩)
  · exact .inr (.inr (.inl ⟨error, found, unlabelled _ rfl⟩))
  · exact .inr (.inr (.inr ⟨site, (h.of_mem_due found).1, unlabelled _ rfl⟩))

/-- What is recorded, without labels, is a diagnostic that blames a token, or an invalid escape. -/
theorem exists_blamed (file : Option String) (source : String) :
    ∀ d ∈ (ofSource file source).sink.records,
      (∃ t, d.unlabelled.Blames (Scan.ofSource source).tokens t) ∨
      ∃ before, d.AtEscape source.toList (Scan.ofSource source).tokens before := by
  intro d member
  have words := Parse.exists_word (Scan.ofSource source).tokens
  obtain ⟨error, found, same⟩ | ⟨error, found, same⟩ | ⟨error, found, same⟩ | ⟨site, found, same⟩ :=
    exists_finding file source d member
  all_goals rw [same]
  · obtain ⟨t, inside, blames⟩ | ⟨before, c, escape, rfl⟩ := Scan.exists_blamed error found
    · exact .inl ⟨t, .lexical inside blames⟩
    · exact .inr ⟨before, c, escape, same⟩
  · obtain ⟨t, -, blamed⟩ := SyntaxError.mem_of_blamed? found
    exact .inl ⟨t, .syntactic found blamed⟩
  · obtain ⟨t, blames⟩ := Stmt.checkAll_blamesIn words .empty error found
    exact .inl ⟨t, .semantic blames⟩
  · obtain ⟨stmt, there, declared, place⟩ := found.statement
    obtain ⟨word, hword, inside⟩ := words stmt (List.mem_of_getElem? there)
    obtain ⟨t, stands, declares⟩ := hword.exists_declares declared
    exact .inl ⟨t, .unread (stands.trans place) (declares.of_isInfix inside)⟩

/-- There is no error of grammar in an empty source. -/
theorem ne_nil_of_error {error : SyntaxError}
    (found : error ∈ (Parse.ofTokens (Scan.ofSource source).tokens).errors) :
    source.toList ≠ [] := by
  intro empty
  have tokens : (Scan.ofSource source).tokens = [.endMark .start] := by
    rw [Scan.tokens_ofSource, empty, Tile.cut]
    rfl
  have atMark : Cursor.AtMark (Cursor.start [Token.endMark .start]).ahead := by
    rintro t ⟨⟩
    rfl
  rw [tokens, Parse.ofTokens, Cursor.attempts_of_atMark atMark] at found
  cases found

/-- Each diagnostic of a compilation points at what it blames. -/
theorem pointing_of_mem_records (file : Option String) (source : String) :
    ∀ d ∈ (ofSource file source).sink.records,
      d.Pointing source.toList (Scan.ofSource source).tokens := by
  intro d member
  obtain ⟨t, blames⟩ | ⟨before, c, escape, same⟩ := exists_blamed file source d member
  · have ordered : d.location.column ≤ d.endColumn := blames.column_le
    have place : d.location = t.location := blames.location_eq
    obtain ⟨before, c, starts⟩ | isMark := Scan.exists_startsAt t blames.mem
    · obtain ⟨more, after, whole, stands⟩ := starts.exists_text
      rw [stands.location] at place
      exact .of_character place whole starts.notBlank ordered (.inl ⟨t, blames, starts, place⟩)
    · subst isMark
      obtain ⟨error, found, same, blamed⟩ := blames.syntactic_of_endOfInput rfl
      exact .of_end place (ne_nil_of_error found) ordered ⟨error, found, same, blamed⟩
  · obtain ⟨front, inside, value, more, after, t, rfl, -, whole, -⟩ := escape.exists_literal
    have place : d.location = .past (front ++ '"' :: inside) := congrArg Diagnostic.location same
    have last : d.endColumn = d.location.column := by
      rw [place]
      exact congrArg Diagnostic.endColumn same
    have split : source.toList = (front ++ '"' :: inside) ++ '\\' :: (c :: more ++ after) := by
      rw [whole]
      simp
    exact .of_character place split (by decide) (Nat.le_of_eq last.symm)
      (.inr ⟨rfl, c, escape, same⟩)

/-- A character behind a tab that no token starts with. -/
theorem pointing_stray :
    ∃ d ∈ (ofSource none "\t!").sink.records, d.location = ⟨1, 2⟩ ∧
      d.Pointing "\t!".toList (Scan.ofSource "\t!").tokens := by
  have stray : Lexeme.read '!' [] = (.stray '!', []) := rfl
  have tiles : Tile.cut "\t!".toList = [.blank '\t', .lexeme (.stray '!')] := by
    change Tile.cut ['\t', '!'] = _
    rw [Tile.cut, if_pos (by decide), Tile.cut, if_neg (by decide), stray, Tile.cut]
  have errors : (Scan.ofSource "\t!").errors = [⟨.unexpected '!', ⟨1, 2⟩⟩] := by
    rw [Scan.ofSource, tiles]
    rfl
  let found := LexicalError.diagnostic ⟨.unexpected '!', ⟨1, 2⟩⟩
  have scanned : found ∈ ((Sink.empty none).scan "\t!").2.records := by
    rw [Sink.scan, errors]
    exact List.mem_singleton_self found
  have member := (readSink_isPrefix none "\t!").subset (List.mem_append_left _ scanned)
  exact ⟨found, member, rfl, pointing_of_mem_records none "\t!" found member⟩

end Compilation

end Quill
