import Quill.Compilation
import Quill.Proofs.Lexeme.Tiling
import Quill.Proofs.Lexeme.Writing

/-!
Layouts: tokens that are written one after the other, with blanks wherever a token would else carry
on the one before it. The scan of a layout gives the tokens that are laid out.
-/
namespace Quill

/-- Tokens, and a text that they are laid out in. There may be blanks in front of any token and at
the end. They may be left out where a token does not carry on the one before it. -/
inductive Laid : List BareToken → List Char → Prop
  | nil {blanks : List Char} (blank : Blank blanks) : Laid [] blanks
  | cons {t : BareToken} {tokens : List BareToken} {blanks text rest : List Char}
      (blank : Blank blanks) (written : Written t text) (apart : Apart t.kind text rest)
      (more : Laid tokens rest) : Laid (t :: tokens) (blanks ++ (text ++ rest))

instance : DecidablePred Blank := fun text =>
  inferInstanceAs (Decidable (∀ c ∈ text, c ∈ [' ', '\t', '\r', '\n']))

theorem Blank.append {text more : List Char} (h : Blank text) (hmore : Blank more) :
    Blank (text ++ more) :=
  fun c member => (List.mem_append.mp member).elim (h c) (hmore c)

namespace Laid

variable {tokens : List BareToken} {blanks text rest : List Char}

/-- Blanks may stand in front of a layout. -/
theorem after_blank (h : Laid tokens text) (blank : Blank blanks) :
    Laid tokens (blanks ++ text) := by
  cases h with
  | nil more => exact .nil (blank.append more)
  | cons more written apart later =>
    rw [← List.append_assoc]
    exact .cons (blank.append more) written apart later

/-- Any blanks behind a token keep it apart, but behind a line comment a line feed comes first. -/
theorem separated (h : Laid tokens rest) {t : BareToken} (written : Written t text)
    (nonempty : blanks ≠ []) (blank : Blank blanks)
    (feed : LineComment text → blanks.head? = some '\n') :
    Laid (t :: tokens) (text ++ (blanks ++ rest)) := by
  obtain ⟨c, more, rfl⟩ := List.exists_cons_of_ne_nil nonempty
  have apart : Apart t.kind text (c :: more ++ rest) := by
    intro d member
    cases member
    have all : ∀ c ∈ [' ', '\t', '\r', '\n'], c ∈ breaks := by decide
    exact ⟨.inl (all c (blank c (by simp))), fun line => Option.some.inj (feed line)⟩
  rw [← List.nil_append (text ++ _)]
  exact .cons (by decide) written apart (h.after_blank blank)

end Laid

namespace BareToken

/-- A token that has a text: a string literal, or a token that shows its text. -/
def HasText (t : BareToken) : Prop :=
  t.kind = .stringLiteral ∨ WellSpelled t.kind t.lexeme.toList

/-- A character as it stands between quotes. -/
def quotedChar (c : Char) : List Char :=
  if c = '"' ∨ c = '\\' then ['\\', c] else [c]

/-- The text of a token, with no escapes but those that there must be. -/
def text (t : BareToken) : List Char :=
  if t.kind = .stringLiteral then '"' :: (t.lexeme.toList.flatMap quotedChar ++ ['"'])
  else t.lexeme.toList

theorem quotes_flatMap_quotedChar (value : List Char) :
    Quotes value (value.flatMap quotedChar) := by
  induction value with
  | nil => exact .nil
  | cons c value ih =>
    rw [List.flatMap_cons]
    by_cases special : c = '"' ∨ c = '\\'
    · have known : (c, c) ∈ escapes := by rcases special with rfl | rfl <;> decide
      rw [quotedChar, if_pos special]
      exact .escape known ih
    · rw [quotedChar, if_neg special]
      exact .plain (fun quote => special (.inl quote)) (fun slash => special (.inr slash)) ih

theorem HasText.written {t : BareToken} (h : t.HasText) : Written t t.text := by
  unfold text
  split
  · next string => exact .quoted string (quotes_flatMap_quotedChar _)
  · next other => exact .verbatim (h.resolve_left other)

/-- Each token on a line of its own. -/
def lines (tokens : List BareToken) : List Char :=
  tokens.flatMap fun t => t.text ++ ['\n']

theorem laid_lines {tokens : List BareToken} (h : ∀ t ∈ tokens, t.HasText) :
    Laid tokens (lines tokens) := by
  induction tokens with
  | nil => exact .nil (by decide)
  | cons t tokens ih =>
    rw [List.forall_mem_cons] at h
    rw [lines, List.flatMap_cons, List.append_assoc]
    exact (ih h.2).separated h.1.written (by decide) (by decide) (fun _ => rfl)

end BareToken

def BareToken.endMark : BareToken := ⟨.endOfInput, ""⟩

/-- Tiles that give some tokens and no error, wherever they start. -/
def Tile.Give (tiles : List Tile) (tokens : List BareToken) : Prop :=
  ∀ here, (Tile.tokens here tiles).map Token.bare = tokens ++ [.endMark] ∧
    Tile.errors here tiles = []

namespace Tile.Give

variable {tiles : List Tile} {tokens : List BareToken} {text : List Char}

theorem nil : Give [] [] := fun _ => ⟨rfl, rfl⟩

theorem blank (h : Give tiles tokens) (c : Char) : Give (.blank c :: tiles) tokens :=
  fun here => h (here.step c)

theorem lexeme (h : Give tiles tokens) {t : BareToken} {l : Lexeme}
    (shows : ∀ here, (l.token here).bare = t) (clean : ∀ here, l.errors here = []) :
    Give (.lexeme l :: tiles) (t :: tokens) := by
  intro here
  obtain ⟨found, quiet⟩ := h (here.after l.source)
  rw [Tile.tokens, Tile.errors, List.map_cons, shows, found, clean, quiet]
  exact ⟨rfl, rfl⟩

/-- Blanks in front of a text make no token. -/
theorem cut_blanks (h : Give (cut text) tokens) {blanks : List Char} (blank : Blank blanks) :
    Give (cut (blanks ++ text)) tokens := by
  induction blanks with
  | nil => exact h
  | cons c blanks ih =>
    have isBlank := Lexeme.isBlank_iff.mpr (blank c List.mem_cons_self)
    rw [List.cons_append, cut, if_pos isBlank]
    exact (ih fun d member => blank d (List.mem_cons_of_mem c member)).blank c

/-- A lexeme that is read off a text is its first tile. -/
theorem cut_readOff {rest : List Char} (h : Give (cut rest) tokens) {t : BareToken} {l : Lexeme}
    (readOff : Lexeme.ReadOff text rest l) (shows : ∀ here, (l.token here).bare = t)
    (clean : ∀ here, l.errors here = []) : Give (cut (text ++ rest)) (t :: tokens) := by
  obtain ⟨c, tail, rfl, notBlank, read⟩ := readOff
  rw [List.cons_append, cut, if_neg (by simp [notBlank]), read]
  exact h.lexeme shows clean

end Tile.Give

theorem Laid.give {tokens : List BareToken} {text : List Char} (h : Laid tokens text) :
    Tile.Give (Tile.cut text) tokens := by
  induction h with
  | @nil blanks blank =>
    have empty : Tile.Give (Tile.cut []) [] := by
      rw [Tile.cut]
      exact .nil
    have cut := empty.cut_blanks blank
    rw [List.append_nil] at cut
    exact cut
  | cons blank written apart _ ih =>
    obtain ⟨l, readOff, shows, clean⟩ := written.read apart
    exact (ih.cut_readOff readOff shows clean).cut_blanks blank

/-- The scan of a layout leaves any sink as it is. -/
theorem Laid.exists_scan_eq {tokens : List BareToken} {source : String}
    (h : Laid tokens source.toList) (sink : Sink) :
    ∃ scanned : List Token, sink.scan source = (scanned, sink) ∧
      scanned.map Token.bare = tokens ++ [.endMark] := by
  obtain ⟨found, quiet⟩ := h.give .start
  have noErrors : (Scan.ofSource source).errors = [] := quiet
  refine ⟨(Scan.ofSource source).tokens, ?_, found⟩
  rw [Sink.scan, noErrors]
  exact congrArg (Prod.mk _) sink.pushAll_nil

/-- The scan of a layout gives the tokens that are laid out, an end mark behind them and no
diagnostic. -/
theorem Sink.scan_of_laid (sink : Sink) (tokens : List BareToken) (source : String)
    (laid : Laid tokens source.toList) :
    (sink.scan source).1.map Token.bare = tokens ++ [.endMark] ∧ (sink.scan source).2 = sink := by
  obtain ⟨scanned, scans, same⟩ := laid.exists_scan_eq sink
  rw [scans]
  exact ⟨same, rfl⟩

/-- A line comment, a decimal in front of a block comment, and a string with all ways to write a
character: a quote and a backslash escaped, a line feed as it is, a tab escaped. -/
def laidTokens : List BareToken :=
  [⟨.comment, "// ;1"⟩, ⟨.trueWord, "True"⟩, ⟨.floatLiteral, "03.50"⟩, ⟨.comment, ";\n;"⟩,
    ⟨.stringLiteral, "\"\\\n\t"⟩]

/-- Blanks of all kinds are between them. -/
def laidSource : String := "// ;1\n True\t03.50 ;\n;\r\"\\\"\\\\\n\\t\"\n"

theorem laid_laidTokens : Laid laidTokens laidSource.toList := by
  have quotes : Quotes "\"\\\n\t".toList ['\\', '"', '\\', '\\', '\n', '\\', 't'] :=
    .escape (by decide) (.escape (by decide) (.plain (by decide) (by decide)
      (.escape (by decide) .nil)))
  have string := (Laid.nil (by decide : Blank [])).separated (t := ⟨.stringLiteral, "\"\\\n\t"⟩)
    (.quoted rfl quotes) (by decide) (by decide : Blank ['\n']) (by decide)
  have block := string.separated (t := ⟨.comment, ";\n;"⟩)
    (.verbatim (@WellSpelled.blockComment ['\n'] (by decide) (by decide)))
    (by decide) (by decide : Blank ['\r']) (by decide)
  have decimal := block.separated (t := ⟨.floatLiteral, "03.50"⟩)
    (.verbatim (@WellSpelled.decimal ['0', '3'] ['5', '0'] (by decide) (by decide) (by decide)
      (by decide))) (by decide) (by decide : Blank [' ']) (by decide)
  have word := decimal.separated (t := ⟨.trueWord, "True"⟩)
    (.verbatim (@WellSpelled.reserved "True" _ (by decide)))
    (by decide) (by decide : Blank ['\t']) (by decide)
  have line := word.separated (t := ⟨.comment, "// ;1"⟩)
    (.verbatim (@WellSpelled.lineComment '/' [' ', ';', '1'] (by decide) (by decide)))
    (by decide) (by decide : Blank ['\n', ' ']) (by decide)
  exact line

/-- All of them are read back. -/
theorem Sink.scan_laidTokens : Laid laidTokens laidSource.toList ∧
    ((Sink.empty none).scan laidSource).1.map Token.bare = laidTokens ++ [.endMark] ∧
    ((Sink.empty none).scan laidSource).2 = .empty none :=
  ⟨laid_laidTokens, Sink.scan_of_laid (.empty none) laidTokens laidSource laid_laidTokens⟩

end Quill
