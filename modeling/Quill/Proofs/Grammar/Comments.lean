import Quill.Proofs.Grammar.Program
import Quill.Proofs.Tree.Source

/-!
Comments, and what is left of a program without them. Before, between and after statements they make
no difference. Between the brackets of an output a comment is text like any other token, and the
text goes with it.
-/
namespace Quill

def uncommented (tokens : List Token) : List Token :=
  tokens.filter (·.kind ≠ .comment)

@[simp] theorem uncommented_append (tokens more : List Token) :
    uncommented (tokens ++ more) = uncommented tokens ++ uncommented more :=
  List.filter_append ..

theorem uncommented_cons_of_comment {t : Token} (h : t.kind = .comment) (tokens : List Token) :
    uncommented (t :: tokens) = uncommented tokens :=
  List.filter_cons_of_neg (by simp [h])

theorem uncommented_cons {t : Token} (h : t.kind ≠ .comment) (tokens : List Token) :
    uncommented (t :: tokens) = t :: uncommented tokens :=
  List.filter_cons_of_pos (by simp [h])

theorem uncommented_of_comments {comments : List Token} (h : ∀ t ∈ comments, t.kind = .comment) :
    uncommented comments = [] :=
  List.filter_eq_nil_iff.mpr fun t member => by simp [h t member]

theorem uncommented_eq_self {tokens : List Token} (h : ∀ t ∈ tokens, t.kind ≠ .comment) :
    uncommented tokens = tokens :=
  List.filter_eq_self.mpr fun t member => by simp [h t member]

/-- An end mark at the front stays there. -/
theorem atMark_uncommented {tokens : List Token} (h : Cursor.AtMark tokens) :
    Cursor.AtMark (uncommented tokens) := by
  cases tokens with
  | nil => exact h
  | cons mark rest =>
    have isMark : mark.kind = .endOfInput := h mark rfl
    rw [uncommented_cons (by simp [isMark])]
    exact h

theorem kind_of_mem_uncommented {tokens : List Token} {t : Token} (h : t ∈ uncommented tokens) :
    t.kind ≠ .comment := by
  simpa using (List.mem_filter.mp h).2

/-- A statement, and the statement that its tokens write without the comments among them. Only the
text of an output can be another one. -/
structure StatementWord.Sheds (word : List Token) (stmt left : Stmt) : Prop where
  written : StatementWord word stmt
  remains : StatementWord (uncommented word) left
  same : (∀ t ∈ word, t.kind ≠ .comment) → left = stmt
  text : (∃ t ∈ word, t.kind = .comment) → ∃ content fewer place,
    stmt = .output content place ∧ left = .output fewer place ∧
      fewer.expressions = content.expressions

/-- A declaration is left as it is. -/
theorem StatementWord.Sheds.left_eq {word : List Token} {stmt left : Stmt}
    (h : Sheds word stmt left) (declares : stmt.declared?.isSome) : left = stmt :=
  h.same fun t member => (h.written.solid declares t member).2

/-- Without its comments a content has the same markers. -/
theorem ContentWord.uncommented {word : List Token} {pieces : List Segment}
    (h : ContentWord word pieces) :
    ∃ fewer, ContentWord (uncommented word) fewer ∧
      fewer.filterMap Segment.name? = pieces.filterMap Segment.name? := by
  induction h with
  | nil => exact ⟨[], .nil, rfl⟩
  | @text t _ _ notOpen notClose notMark _ ih =>
    obtain ⟨fewer, word, names⟩ := ih
    by_cases comment : t.kind = .comment
    · rw [uncommented_cons_of_comment comment]
      exact ⟨fewer, word, names⟩
    · rw [uncommented_cons comment]
      exact ⟨_, .text notOpen notClose notMark word, names⟩
  | marker opening identifier closing _ ih =>
    obtain ⟨fewer, word, names⟩ := ih
    rw [uncommented_cons (by simp [opening]), uncommented_cons (by simp [identifier]),
      uncommented_cons (by simp [closing])]
    exact ⟨_, .marker opening identifier closing word, congrArg (_ :: ·) names⟩

theorem StatementWord.sheds {word : List Token} {stmt : Stmt} (h : StatementWord word stmt) :
    ∃ left, Sheds word stmt left := by
  by_cases plain : ∀ t ∈ word, t.kind ≠ .comment
  · refine ⟨stmt, h, ?_, fun _ => rfl, ?_⟩
    · rw [uncommented_eq_self plain]
      exact h
    · rintro ⟨t, member, comment⟩
      exact absurd comment (plain t member)
  · have written := h
    cases h with
    | @output stdout opening closing first inner pieces hstdout hopening hcontent hclosing =>
      obtain ⟨fewer, hfewer, names⟩ := hcontent.uncommented
      obtain ⟨front, hfront, -⟩ := Reader.head?_content (uncommented inner) closing
      refine ⟨.output (.ofRuns fewer front.location) stdout.location, written, ?_,
        fun commentless => absurd commentless plain, fun _ => ⟨_, _, _, rfl, rfl, names⟩⟩
      rw [uncommented_cons (by simp [hstdout]), uncommented_cons (by simp [hopening]),
        uncommented_append, uncommented_cons (by simp [hclosing])]
      exact .output hstdout hopening hfewer hclosing hfront
    | scalar | flag | values | sized =>
      exact absurd (fun t member => (written.solid rfl t member).2) plain

/-- A statement among the tokens of a program with the comments in front of it, and what is left of
it without comments. -/
structure Passage where
  comments : List Token
  word : List Token
  stmt : Stmt
  left : Stmt

namespace Passage

def tokens (passage : Passage) : List Token := passage.comments ++ passage.word

/-- The tokens of a passage write its statement and, without the comments, what is left. -/
structure Holds (passage : Passage) : Prop where
  comments : ∀ t ∈ passage.comments, t.kind = .comment
  sheds : StatementWord.Sheds passage.word passage.stmt passage.left

end Passage

theorem ProgramWord.exists_passages {word : List Token} {statements : List Stmt}
    (h : ProgramWord word statements) :
    ∃ (passages : List Passage) (last : List Token),
      word = passages.flatMap Passage.tokens ++ last ∧ (∀ t ∈ last, t.kind = .comment) ∧
      (∀ passage ∈ passages, passage.Holds) ∧ statements = passages.map Passage.stmt ∧
      ProgramWord (uncommented word) (passages.map Passage.left) := by
  induction h with
  | @comments word hcomments =>
    refine ⟨[], word, rfl, hcomments, by simp, rfl, ?_⟩
    rw [uncommented_of_comments hcomments]
    exact .comments (by simp)
  | @statement comments word more stmt statements hcomments hstmt hmore ih =>
    obtain ⟨left, sheds⟩ := hstmt.sheds
    obtain ⟨passages, last, rfl, hlast, holds, rfl, remains⟩ := ih
    refine ⟨⟨comments, word, stmt, left⟩ :: passages, last, by simp [Passage.tokens], hlast, ?_,
      rfl, ?_⟩
    · rw [List.forall_mem_cons]
      exact ⟨⟨hcomments, sheds⟩, holds⟩
    · have program := @ProgramWord.statement [] _ _ _ _ (by simp) sheds.remains remains
      simpa [uncommented_of_comments hcomments] using program

/-- If the first end mark is right behind a comment, then it is the last token of the list. -/
def MarkEndsList (tokens : List Token) : Prop :=
  ∀ before comment mark after, tokens = before ++ comment :: mark :: after → Markless before →
    comment.kind = .comment → mark.kind = .endOfInput → after = []

namespace MarkEndsList

open Cursor

/-- So it is if no token but the last is an end mark. -/
theorem of_markless {body : List Token} (markless : Markless body) (last : Token) :
    MarkEndsList (body ++ [last]) := by
  intro before comment mark after split _ _ isMark
  rcases List.eq_nil_or_concat after with nothing | ⟨front, t, rfl⟩
  · exact nothing
  · have whole : body ++ [last] = (before ++ comment :: mark :: front) ++ [t] := by
      rw [split]
      simp
    obtain ⟨rfl, -⟩ := List.append_inj' whole rfl
    exact absurd isMark (markless mark (by simp))

/-- The tokens up to the first end mark, and the tokens from there on. -/
theorem exists_split {tokens : List Token} (h : MarkEndsList tokens) :
    ∃ body rest, tokens = body ++ rest ∧ Markless body ∧ AtMark rest ∧ MarkIsLast body rest := by
  let inside := fun t : Token => decide (t.kind ≠ .endOfInput)
  have split : tokens.takeWhile inside ++ tokens.dropWhile inside = tokens :=
    List.takeWhile_append_dropWhile
  have mark : AtMark (tokens.dropWhile inside) := by
    intro t member
    have stop := List.head?_dropWhile_not inside tokens
    rw [Option.mem_def.mp member] at stop
    simpa [inside] using stop
  have markless : Markless (tokens.takeWhile inside) := by
    intro t member
    simpa [inside] using List.mem_takeWhile_imp member
  refine ⟨_, _, split.symm, markless, mark, ?_⟩
  intro comment last isComment
  obtain ⟨before, front⟩ := List.getLast?_eq_some_iff.mp last
  rw [front] at markless
  cases behind : tokens.dropWhile inside with
  | nil => rfl
  | cons first after =>
    rw [behind] at mark split
    exact h before comment first after (by rw [← split, front]; simp)
      (markless_append.mp markless).1 isComment (mark first rfl)

end MarkEndsList

namespace Sink

/-- Tokens that are read without a diagnostic are so without the comments among them too. They give
the same statements; but the text of an output is that of its content without the comments. -/
theorem parse_uncommented (sink : Sink) (tokens : List Token) (isLast : MarkEndsList tokens)
    (clean : (sink.parse tokens).2.records = sink.records) :
    (sink.parse (uncommented tokens)).2.records = sink.records ∧
    ∃ (passages : List Passage) (last rest : List Token),
      tokens = passages.flatMap Passage.tokens ++ last ++ rest ∧
      (∀ t ∈ last, t.kind = .comment) ∧ (∀ t ∈ rest.head?, t.kind = .endOfInput) ∧
      (∀ passage ∈ passages, passage.Holds) ∧
      (sink.parse tokens).1.statements = passages.map Passage.stmt ∧
      (sink.parse (uncommented tokens)).1.statements = passages.map Passage.left := by
  obtain ⟨body, rest, rfl, markless, mark, behind⟩ := isLast.exists_split
  have word := Cursor.attempts_word_upTo (.start (body ++ rest)) body rest rfl markless mark behind
    (records_parse_eq_iff.mp clean)
  obtain ⟨passages, last, split, hlast, holds, statements, remains⟩ := word.exists_passages
  have bare : Cursor.MarkIsLast (uncommented body) (uncommented rest) := by
    intro t member comment
    exact absurd comment (kind_of_mem_uncommented (List.mem_of_getLast? member))
  obtain ⟨quiet, left⟩ := Cursor.attempts_of_word_upTo remains (atMark_uncommented mark) bare
    (.start (uncommented (body ++ rest))) (uncommented_append body rest)
  refine ⟨records_parse_eq_iff.mpr quiet, passages, last, rest, ?_, hlast, mark, holds, statements,
    left⟩
  rw [split]

/-- The chain, which has a comment in front of it, is the same program without the comment. -/
theorem parse_uncommented_chainTokens :
    MarkEndsList (chainTokens ++ [.endMark ⟨2, 24⟩]) ∧
    ((empty none).parse (chainTokens ++ [.endMark ⟨2, 24⟩])).2.records = [] ∧
    ((empty none).parse (uncommented (chainTokens ++ [.endMark ⟨2, 24⟩]))).2.records = [] ∧
    ((empty none).parse (uncommented (chainTokens ++ [.endMark ⟨2, 24⟩]))).1.statements =
      ((empty none).parse (chainTokens ++ [.endMark ⟨2, 24⟩])).1.statements := by
  have markless : ∀ t ∈ chainTokens, t.kind ≠ .endOfInput := by decide
  have isLast := MarkEndsList.of_markless markless (.endMark ⟨2, 24⟩)
  have isMark : (Token.endMark ⟨2, 24⟩).kind = .endOfInput := rfl
  have read := (empty none).parse_of_word programWord_chainTokens isMark
  have clean : ((empty none).parse (chainTokens ++ [.endMark ⟨2, 24⟩])).2.records = [] := by
    rw [read]
    rfl
  obtain ⟨quiet, passages, -, -, -, -, -, holds, statements, left⟩ :=
    parse_uncommented (.empty none) _ isLast clean
  refine ⟨isLast, clean, quiet, ?_⟩
  rw [left, statements]
  rw [read] at statements
  refine List.map_congr_left fun passage member => (holds passage member).sheds.left_eq ?_
  have declared : passage.stmt ∈ passages.map Passage.stmt := List.mem_map_of_mem member
  rw [← statements] at declared
  rw [List.mem_singleton.mp declared]
  rfl

end Sink

/-- `stdout[a // c` with the closing bracket on the next line, and an end mark. -/
def commentedOutput : List Token :=
  [.spelled .stdout "stdout" ⟨1, 1⟩, .spelled .bracketOpen "[" ⟨1, 7⟩,
    .spelled .identifier "a" ⟨1, 8⟩, .spelled .comment "// c" ⟨1, 10⟩,
    .spelled .bracketClose "]" ⟨2, 1⟩, .endMark ⟨2, 2⟩]

/-- A comment between the brackets of an output is part of its text. -/
theorem Sink.parse_commentedOutput :
    ((empty none).parse commentedOutput).2.records = [] ∧
    ((empty none).parse (uncommented commentedOutput)).2.records = [] ∧
    ((empty none).parse commentedOutput).1.statements =
      [.output ⟨["a // c"], [], ⟨1, 8⟩⟩ ⟨1, 1⟩] ∧
    ((empty none).parse (uncommented commentedOutput)).1.statements =
      [.output ⟨["a"], [], ⟨1, 8⟩⟩ ⟨1, 1⟩] ∧
    ((empty none).parse (uncommented commentedOutput)).1.unplaced ≠
      ((empty none).parse commentedOutput).1.unplaced := by
  have nothing : ContentWord [] [] := .nil
  have noMore : ProgramWord [] [] := .comments (by simp)
  have isMark : (Token.endMark ⟨2, 2⟩).kind = .endOfInput := rfl
  have text : ContentWord ((commentedOutput.drop 2).take 2) [.text "a", .text "// c"] :=
    .text (by decide) (by decide) (by decide) (.text (by decide) (by decide) (by decide) nothing)
  have fewer : ContentWord ((commentedOutput.drop 2).take 1) [.text "a"] :=
    .text (by decide) (by decide) (by decide) nothing
  have word : ProgramWord (commentedOutput.take 5) [.output ⟨["a // c"], [], ⟨1, 8⟩⟩ ⟨1, 1⟩] :=
    @ProgramWord.statement [] _ [] _ _ (by simp) (.output rfl rfl text rfl rfl) noMore
  have left : ProgramWord (uncommented (commentedOutput.take 5))
      [.output ⟨["a"], [], ⟨1, 8⟩⟩ ⟨1, 1⟩] :=
    @ProgramWord.statement [] _ [] _ _ (by simp) (.output rfl rfl fewer rfl rfl) noMore
  have read : (empty none).parse commentedOutput = _ := (empty none).parse_of_word word isMark
  have readLeft : (empty none).parse (uncommented commentedOutput) = _ :=
    (empty none).parse_of_word left isMark
  rw [read, readLeft]
  refine ⟨rfl, rfl, rfl, rfl, ?_⟩
  simp [Program.ofStatements, Program.unplaced, Stmt.unplaced, Interpolation.unplaced]

end Quill
