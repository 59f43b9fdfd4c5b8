import Quill.Proofs.Grammar.Program
import Quill.Proofs.Number.Numeral
import Quill.Proofs.Tree.Source

/-!
Reading what was printed. Tokens that show what is printed of a program are a word of the grammar,
and the word writes the program again, with other places.
-/
namespace Quill

open BareToken

/-- Tokens that show what was printed. -/
def Shows (tokens : List Token) (printed : List BareToken) : Prop :=
  tokens.map Token.bare = printed

namespace Shows

variable {tokens : List Token} {front back : List BareToken}

theorem nil (h : Shows tokens []) : tokens = [] :=
  List.map_eq_nil_iff.mp h

theorem cons {t : BareToken} (h : Shows tokens (t :: back)) :
    ∃ first rest, tokens = first :: rest ∧ first.bare = t ∧ Shows rest back :=
  List.map_eq_cons_iff.mp h

theorem fixed {kind : TokenKind} (h : Shows tokens (fixed kind :: back)) :
    ∃ first rest, tokens = first :: rest ∧ first.kind = kind ∧ Shows rest back := by
  obtain ⟨first, rest, rfl, same, h⟩ := h.cons
  exact ⟨first, rest, rfl, congrArg BareToken.kind same, h⟩

theorem append (h : Shows tokens (front ++ back)) :
    ∃ first rest, tokens = first ++ rest ∧ Shows first front ∧ Shows rest back :=
  List.map_eq_append_iff.mp h

/-- A token of a kind comes last. -/
theorem append_fixed {kind : TokenKind} (h : Shows tokens (front ++ [.fixed kind])) :
    ∃ first last, tokens = first ++ [last] ∧ Shows first front ∧ last.kind = kind := by
  obtain ⟨first, rest, rfl, hfirst, h⟩ := h.append
  obtain ⟨last, rest, rfl, hlast, h⟩ := h.fixed
  rw [h.nil]
  exact ⟨first, last, rfl, hfirst, hlast⟩

/-- A name, and its token. -/
theorem name {text : String} (h : Shows tokens (.name text :: back)) :
    ∃ first rest, tokens = first :: rest ∧ first.kind = .identifier ∧ first.lexeme = text ∧
      Shows rest back := by
  obtain ⟨first, rest, rfl, same, h⟩ := h.cons
  exact ⟨first, rest, rfl, congrArg BareToken.kind same, congrArg BareToken.lexeme same, h⟩

end Shows

/-- A printable literal is printed as what is read as its value. -/
theorem Literal.word_of_printed {decimal : Binary32 → String} {value : Literal}
    (h : value.Printable decimal) {t : Token} (shows : t.bare = value.printed decimal) :
    LiteralWord t value := by
  obtain ⟨kind, lexeme, location, endColumn⟩ := t
  cases value with
  | integer n =>
    obtain ⟨lower, upper⟩ := h
    lift n to Nat using lower
    cases shows
    exact .integer rfl (.unsigned (.bare (Numeral.digits_toString n))) (by omega) upper
  | float x =>
    cases shows
    exact .float rfl h.2
  | string text =>
    cases shows
    exact .string rfl
  | bool value =>
    cases value with
    | true => cases shows; exact .trueWord rfl
    | false => cases shows; exact .falseWord rfl

namespace Expr

/-- Tokens that write an expression up to its places. -/
structure Reads (e : Expr) (tokens : List Token) (read : Expr) : Prop where
  same : read.unplaced = e.unplaced
  word : ExpressionWord tokens read
  operand : e.isBinary = false → OperandWord tokens read
  array : e.isArray → ArrayWord tokens read

variable {style : SourceStyle}

/-- A left side is one operand, in parentheses or not. -/
theorem exists_operandWord {left : Expr}
    (reads : ∀ tokens, Shows tokens (left.printed style) → ∃ read, left.Reads tokens read)
    {tokens : List Token}
    (shows : Shows tokens
      (if left.isBinary then inParens (left.printed style) else left.printed style)) :
    ∃ read, read.unplaced = left.unplaced ∧ OperandWord tokens read := by
  split at shows
  · obtain ⟨first, rest, rfl, opening, shows⟩ := shows.fixed
    obtain ⟨inner, last, rfl, hinner, closing⟩ := shows.append_fixed
    obtain ⟨read, h⟩ := reads inner hinner
    exact ⟨read, h.same, .parens opening h.word closing⟩
  · next simple =>
    obtain ⟨read, h⟩ := reads tokens shows
    exact ⟨read, h.same, h.operand (Bool.eq_false_iff.mpr simple)⟩

mutual

/-- By the form of the expression. A left operand that is a binary expression is in parentheses,
which leave no node. -/
theorem exists_reads : ∀ (e : Expr) (_ : e.Printable style) (tokens : List Token)
    (_ : Shows tokens (e.printed style)), ∃ read, e.Reads tokens read
  | literal value location, printable, tokens, shows => by
    obtain ⟨t, rest, rfl, ht, last⟩ := shows.cons
    obtain rfl := last.nil
    have word := OperandWord.literal (Literal.word_of_printed printable ht)
    exact ⟨literal value t.location, rfl, .operand word, fun _ => word, nofun⟩
  | identifier text location, _, tokens, shows => by
    obtain ⟨t, rest, rfl, kind, lexeme, last⟩ := shows.name
    obtain rfl := last.nil
    subst lexeme
    have word := OperandWord.identifier kind
    exact ⟨identifier t.lexeme t.location, rfl, .operand word, fun _ => word, nofun⟩
  | binary left operator right location, printable, tokens, shows => by
    rw [printed] at shows
    rw [Printable] at printable
    obtain ⟨front, rest, rfl, hfront, shows⟩ := shows.append
    obtain ⟨t, back, rfl, kind, hback⟩ := shows.fixed
    obtain ⟨readLeft, sameLeft, wordLeft⟩ :=
      exists_operandWord (exists_reads left printable.1) hfront
    obtain ⟨readRight, h⟩ := exists_reads right printable.2 back hback
    refine ⟨binary readLeft operator readRight t.location, ?_, .binary wordLeft kind h.word, nofun,
      nofun⟩
    rw [unplaced, unplaced, sameLeft, h.same]
  | array elements location, printable, tokens, shows => by
    rw [printed] at shows
    rw [Printable] at printable
    obtain ⟨first, others, rfl, opening, shows⟩ := shows.fixed
    obtain ⟨inner, last, rfl, hinner, closing⟩ := shows.append_fixed
    obtain ⟨read, same, ofEmpty, ofSome⟩ := exists_elementsWord elements printable inner hinner
    have word : ArrayWord (first :: (inner ++ [last])) (array read first.location) := by
      by_cases empty : elements = []
      · obtain ⟨rfl, rfl⟩ := ofEmpty empty
        exact .empty opening closing
      · exact .some opening (ofSome empty) closing
    refine ⟨_, ?_, .operand (.array word), fun _ => .array word, fun _ => word⟩
    rw [unplaced, unplaced, same]

/-- An empty array has no elements to be a word, so that case is told apart. -/
theorem exists_elementsWord : ∀ (elements : List Expr) (_ : AllPrintable style elements)
    (tokens : List Token) (_ : Shows tokens (printedAll style elements)),
    ∃ read, unplacedAll read = unplacedAll elements ∧
      (elements = [] → tokens = [] ∧ read = []) ∧ (elements ≠ [] → ElementsWord tokens read)
  | [], _, tokens, shows => ⟨[], rfl, fun _ => ⟨shows.nil, rfl⟩, nofun⟩
  | [e], printable, tokens, shows => by
    rw [AllPrintable] at printable
    obtain ⟨read, h⟩ := exists_reads e printable.1 tokens shows
    refine ⟨[read], ?_, nofun, fun _ => .one h.word⟩
    rw [unplacedAll, h.same]
    rfl
  | e :: next :: rest, printable, tokens, shows => by
    rw [printedAll] at shows
    rw [AllPrintable] at printable
    obtain ⟨front, others, rfl, hfront, shows⟩ := shows.append
    obtain ⟨t, back, rfl, comma, hback⟩ := shows.fixed
    obtain ⟨read, h⟩ := exists_reads e printable.1 front hfront
    obtain ⟨more, same, -, ofSome⟩ := exists_elementsWord (next :: rest) printable.2 back hback
    refine ⟨read :: more, ?_, nofun, fun _ => .more h.word comma (ofSome nofun)⟩
    rw [unplacedAll, h.same, same, ← unplacedAll]

end

/-- The tokens of a marker. -/
theorem exists_marker {e : Expr} (h : e.IsMarker) {tokens : List Token} {back : List BareToken}
    (shows : Shows tokens (e.printedMarker style ++ back)) :
    ∃ first name last rest, tokens = first :: name :: last :: rest ∧ first.kind = .braceOpen ∧
      name.kind = .identifier ∧ last.kind = .braceClose ∧
      e.unplaced = identifier name.lexeme .start ∧ Shows rest back := by
  obtain ⟨text, location, rfl, -⟩ := h
  obtain ⟨front, rest, rfl, marker, hrest⟩ := shows.append
  obtain ⟨first, more, rfl, opening, more_shows⟩ := marker.fixed
  obtain ⟨name, more, rfl, kind, lexeme, more_shows⟩ := more_shows.name
  obtain ⟨last, more, rfl, closing, more_shows⟩ := more_shows.fixed
  obtain rfl := more_shows.nil
  subst lexeme
  exact ⟨first, name, last, rest, rfl, opening, kind, closing, rfl, hrest⟩

end Expr

namespace Interpolation

/-- Pieces of a content that make parts, and expressions up to their places. -/
structure Makes (pieces : List Segment) (parts : List String) (expressions : List Expr) :
    Prop where
  parts_eq : (Segment.runs pieces).filterMap part? = parts
  expressions_eq :
    Expr.unplacedAll (pieces.filterMap Segment.name?) = Expr.unplacedAll expressions

namespace Makes

variable {pieces : List Segment} {parts : List String} {expressions : List Expr} {part : String}

theorem nil : Makes [] [] [] := ⟨rfl, rfl⟩

theorem marker (h : Makes pieces parts expressions) {e : Expr} {name : String}
    {location : Location} (same : e.unplaced = .identifier name .start) :
    Makes (.marker name location :: pieces) parts (e :: expressions) := by
  refine ⟨h.parts_eq, ?_⟩
  rw [Expr.unplacedAll, same, ← h.expressions_eq]
  rfl

theorem part?_single (nonempty : part ≠ "") : part? [part] = some part := by
  simp [part?, nonempty]

/-- A text in front of the end or of a marker is a run of its own. -/
theorem text (h : Makes pieces parts expressions) (nonempty : part ≠ "")
    (alone : (Segment.runs pieces).headD [] = []) :
    Makes (.text part :: pieces) (part :: parts) expressions := by
  refine ⟨?_, h.expressions_eq⟩
  have parts_eq := h.parts_eq
  rw [Interpolation.parts_eq, alone] at parts_eq
  rw [Segment.runs, alone, List.filterMap_cons_some (part?_single nonempty)]
  exact congrArg (part :: ·) parts_eq

end Makes

/-- A string literal is text. -/
theorem text_of_string {t : Token} {word : List Token} {pieces : List Segment}
    (kind : t.kind = .stringLiteral) (h : ContentWord word pieces) :
    ContentWord (t :: word) (.text t.lexeme :: pieces) :=
  .text (by simp [kind]) (by simp [kind]) (by simp [kind]) h

/-- Parts and markers come in turn, so each part is a run of one lexeme and comes back as it was. -/
theorem exists_contentWord {style : SourceStyle} (parts : List String) (expressions : List Expr)
    (nonempty : ∀ part ∈ parts, part ≠ "") (markers : ∀ e ∈ expressions, e.IsMarker)
    (turns : parts.length ≤ expressions.length + 1) (tokens : List Token)
    (shows : Shows tokens (printedTurns style parts expressions)) :
    ∃ pieces, ContentWord tokens pieces ∧ Makes pieces parts expressions := by
  fun_induction printedTurns style parts expressions generalizing tokens with
  | case1 expressions =>
    induction expressions generalizing tokens with
    | nil =>
      obtain rfl := shows.nil
      exact ⟨[], .nil, .nil⟩
    | cons e expressions ih =>
      rw [List.forall_mem_cons] at markers
      rw [List.flatMap_cons] at shows
      obtain ⟨first, name, last, rest, rfl, opening, kind, closing, same, hrest⟩ :=
        Expr.exists_marker markers.1 shows
      obtain ⟨pieces, word, makes⟩ := ih markers.2 (by simp) rest hrest
      exact ⟨_, .marker opening kind closing word, makes.marker same⟩
  | case2 part parts ih =>
    obtain rfl : parts = [] := by simpa using turns
    rw [List.forall_mem_cons] at nonempty
    obtain ⟨t, rest, rfl, ht, hrest⟩ := shows.cons
    obtain ⟨kind, lexeme⟩ := BareToken.mk.inj ht
    obtain rfl := hrest.nil
    subst lexeme
    exact ⟨_, text_of_string kind .nil, Makes.nil.text nonempty.1 rfl⟩
  | case3 part parts e expressions ih =>
    rw [List.forall_mem_cons] at nonempty markers
    obtain ⟨t, rest, rfl, ht, shows⟩ := shows.cons
    obtain ⟨kind, lexeme⟩ := BareToken.mk.inj ht
    obtain ⟨first, name, last, rest, rfl, opening, nameKind, closing, same, hrest⟩ :=
      Expr.exists_marker markers.1 shows
    obtain ⟨pieces, word, makes⟩ := ih nonempty.2 markers.2 (by simpa using turns) rest hrest
    have marked := ContentWord.marker opening nameKind closing word
    subst lexeme
    exact ⟨_, text_of_string kind marked, (makes.marker same).text nonempty.1 rfl⟩

theorem Makes.unplaced_ofRuns {pieces : List Segment} {content : Interpolation}
    (h : Makes pieces content.parts content.expressions) (location : Location) :
    (ofRuns pieces location).unplaced = content.unplaced := by
  simp only [unplaced, ofRuns, h.parts_eq, h.expressions_eq]

end Interpolation

namespace Stmt

variable {style : SourceStyle} {tokens : List Token} {text : String} {location : Location}

/-- A declaration of a truth value has a short form, and the style chooses. -/
theorem exists_scalarWord {type : TypeName} {value : Expr}
    (h : (scalar text type value location).Printable style)
    (shows : Shows tokens ((scalar text type value location).printed style)) :
    ∃ read, read.unplaced = (scalar text type value location).unplaced ∧
      StatementWord tokens read := by
  obtain ⟨front, rest, rfl, hfront, shows⟩ := shows.append
  obtain ⟨equals, back, rfl, hequals, hback⟩ := shows.fixed
  obtain ⟨read, hread⟩ := value.exists_reads h.2 back hback
  split at hfront
  · next short =>
    obtain ⟨rfl, -⟩ := short
    obtain ⟨first, rest, rfl, hfirst, hfront⟩ := hfront.fixed
    obtain ⟨name, left, rfl, hname, rfl, more⟩ := hfront.name
    obtain rfl := more.nil
    refine ⟨_, ?_, .flag hfirst hname hequals hread.word⟩
    rw [unplaced, unplaced, hread.same]
  · obtain ⟨first, rest, rfl, hfirst, hfront⟩ := hfront.fixed
    obtain ⟨name, rest, rfl, hname, rfl, more⟩ := hfront.name
    obtain ⟨tag, left, rfl, htag, more⟩ := more.fixed
    obtain rfl := more.nil
    refine ⟨_, ?_, .scalar hfirst hname htag hequals hread.word⟩
    rw [unplaced, unplaced, hread.same]

theorem exists_arrayWord {init : ArrayInit} (h : (array text init location).Printable style)
    (shows : Shows tokens ((array text init location).printed style)) :
    ∃ read, read.unplaced = (array text init location).unplaced ∧ StatementWord tokens read := by
  cases init with
  | values value =>
    obtain ⟨new, rest, rfl, hnew, shows⟩ := shows.fixed
    obtain ⟨name, rest, rfl, hname, rfl, more⟩ := shows.name
    obtain ⟨first, rest, rfl, hfirst, more⟩ := more.fixed
    obtain ⟨last, rest, rfl, hlast, more⟩ := more.fixed
    obtain ⟨equals, back, rfl, hequals, hback⟩ := more.fixed
    obtain ⟨-, isArray, printable⟩ := h
    obtain ⟨read, hread⟩ := value.exists_reads printable back hback
    refine ⟨_, ?_, .values hnew hname hfirst hlast hequals (hread.array isArray)⟩
    rw [unplaced, unplaced, ArrayInit.unplaced, ArrayInit.unplaced, hread.same]
  | sized type size =>
    obtain ⟨new, rest, rfl, hnew, shows⟩ := shows.fixed
    obtain ⟨name, rest, rfl, hname, rfl, more⟩ := shows.name
    obtain ⟨first, rest, rfl, hfirst, more⟩ := more.fixed
    obtain ⟨tag, rest, rfl, htag, more⟩ := more.fixed
    obtain ⟨last, rest, rfl, hlast, more⟩ := more.fixed
    obtain ⟨opening, rest, rfl, hopening, more⟩ := more.fixed
    obtain ⟨count, rest, rfl, hcount, more⟩ := more.cons
    obtain ⟨kind, lexeme⟩ := BareToken.mk.inj hcount
    obtain ⟨closing, left, rfl, hclosing, more⟩ := more.fixed
    obtain rfl := more.nil
    have digits : Numeral.Digits count.lexeme.toList size := lexeme ▸ Numeral.digits_toString size
    exact ⟨array name.lexeme (.sized type size) new.location, rfl,
      .sized hnew hname hfirst htag hlast hopening kind (.bare digits) h.2 hclosing⟩

theorem exists_outputWord {content : Interpolation}
    (h : (output content location).Printable style)
    (shows : Shows tokens ((output content location).printed style)) :
    ∃ read, read.unplaced = (output content location).unplaced ∧ StatementWord tokens read := by
  obtain ⟨stdout, rest, rfl, hstdout, shows⟩ := shows.fixed
  obtain ⟨opening, rest, rfl, hopening, shows⟩ := shows.fixed
  obtain ⟨word, closing, rfl, hcontent, hclosing⟩ := shows.append_fixed
  obtain ⟨pieces, hword, makes⟩ := Interpolation.exists_contentWord content.parts
    content.expressions h.nonempty h.markers h.turns word hcontent
  obtain ⟨first, hfirst, -⟩ := Reader.head?_content word closing
  refine ⟨_, ?_, .output hstdout hopening hword hclosing hfirst⟩
  rw [unplaced, unplaced, makes.unplaced_ofRuns]

theorem exists_word {stmt : Stmt} (h : stmt.Printable style)
    (shows : Shows tokens (stmt.printed style)) :
    ∃ read, read.unplaced = stmt.unplaced ∧ StatementWord tokens read := by
  cases stmt with
  | scalar => exact exists_scalarWord h shows
  | array => exact exists_arrayWord h shows
  | output => exact exists_outputWord h shows

end Stmt

/-- The words of the statements, one behind the other, are the word of a program. -/
theorem exists_programWord {style : SourceStyle} {statements : List Stmt}
    (h : ∀ stmt ∈ statements, stmt.Printable style) {tokens : List Token}
    (shows : Shows tokens (statements.flatMap (Stmt.printed style))) :
    ∃ read, read.map Stmt.unplaced = statements.map Stmt.unplaced ∧ ProgramWord tokens read := by
  induction statements generalizing tokens with
  | nil =>
    obtain rfl := shows.nil
    exact ⟨[], rfl, .comments (by simp)⟩
  | cons stmt statements ih =>
    rw [List.forall_mem_cons] at h
    rw [List.flatMap_cons] at shows
    obtain ⟨word, rest, rfl, hword, hrest⟩ := shows.append
    obtain ⟨read, same, hread⟩ := stmt.exists_word h.1 hword
    obtain ⟨others, sameOthers, hothers⟩ := ih h.2 hrest
    have program := @ProgramWord.statement [] word rest read others (by simp) hread hothers
    refine ⟨read :: others, ?_, program⟩
    rw [List.map_cons, List.map_cons, same, sameOthers]

/-- A program is read back from its source form, up to its places and without a diagnostic, and from
any other layout of what is printed of it. -/
theorem Sink.parse_scan_printed (sink : Sink) (style : SourceStyle) (program : Program)
    (printable : program.Printable style) :
    Laid (program.printed style) (program.source style).toList ∧
    ∀ source : String, Laid (program.printed style) source.toList →
      let scanned := sink.scan source
      let parsed := scanned.2.parse scanned.1
      parsed.2 = sink ∧ parsed.1.unplaced = program.unplaced := by
  refine ⟨printable.laid_source, fun source laid => ?_⟩
  obtain ⟨scanned, scans, found⟩ := laid.exists_scan_eq sink
  have shows : Shows scanned (program.printed style ++ [.endMark]) := found
  obtain ⟨body, rest, rfl, hbody, hrest⟩ := shows.append
  obtain ⟨mark, left, rfl, hmark, hleft⟩ := hrest.cons
  obtain rfl := hleft.nil
  obtain ⟨statements, same, word⟩ := exists_programWord printable hbody
  have parses := sink.parse_of_word word (congrArg BareToken.kind hmark : mark.kind = .endOfInput)
  simp only [scans, parses]
  exact ⟨trivial, congrArg (Program.mk · .start) same⟩

def half : Binary32 := .ofBits 0x3F000000

/-- Floats with a zero more than there need be, and short declarations of truth values. -/
def halfStyle : SourceStyle := ⟨fun _ _ => "0.50", fun _ => true⟩

/-- A left side in parentheses, an array in an array, the greatest size, a part with quotes in it
and two names without a part between them. -/
def printedStatements : List Stmt :=
  [.scalar "b" .bool (.binary (.binary (.literal (.integer 7) .start) .less
      (.literal (.integer 9) .start) .start) .equal (.literal (.bool true) .start) .start) .start,
    .array "xs" (.values (.array [.array [] .start, .literal (.float half) .start] .start)) .start,
    .array "n" (.sized .string 18446744073709551615) .start,
    .output ⟨["a \"b\""], [.identifier "b" .start, .identifier "n" .start], .start⟩ .start]

theorem printable_printedStatements :
    (Program.ofStatements printedStatements).Printable halfStyle := by
  have b : IsName "b" := @WellSpelled.name 'b' [] (by decide) (by decide) (by decide)
  have n : IsName "n" := @WellSpelled.name 'n' [] (by decide) (by decide) (by decide)
  have xs : IsName "xs" := @WellSpelled.name 'x' ['s'] (by decide) (by decide) (by decide)
  have decimal : WellSpelled .floatLiteral "0.50".toList :=
    @WellSpelled.decimal ['0'] ['5', '0'] (by decide) (by decide) (by decide) (by decide)
  have isHalf : Binary32.read? "0.50".toList = some half := by decide
  have content : Interpolation.Printable
      ⟨["a \"b\""], [.identifier "b" .start, .identifier "n" .start], .start⟩ := by
    refine ⟨by decide, ?_, by decide⟩
    simp only [List.forall_mem_cons]
    exact ⟨⟨"b", .start, rfl, b⟩, ⟨"n", .start, rfl, n⟩, nofun⟩
  simp only [Program.Printable, Program.ofStatements, printedStatements, List.forall_mem_cons]
  refine ⟨⟨b, ?binary⟩, ⟨xs, rfl, ?array⟩, ⟨n, by decide⟩, content, nofun⟩
  case binary => simp [Expr.Printable, Literal.Printable]
  case array => exact ⟨trivial, ⟨decimal, isHalf⟩, trivial⟩

theorem Sink.parse_scan_printedStatements :
    let program := Program.ofStatements printedStatements
    let scanned := (Sink.empty none).scan (program.source halfStyle)
    let parsed := scanned.2.parse scanned.1
    program.Printable halfStyle ∧ parsed.2 = .empty none ∧
      parsed.1.unplaced = program.unplaced := by
  have readBack := Sink.parse_scan_printed (.empty none) halfStyle _ printable_printedStatements
  exact ⟨printable_printedStatements, readBack.2 _ readBack.1⟩

end Quill
