import Quill.Proofs.Lexeme.Tiling

/-!
Tokens are as long as they can be. What a token is and where it ends is told by its own text and the
text behind it (`Munch`), and only one way to cut a source into blanks and tokens keeps to that.
-/
namespace Quill

/-- A character that no token starts with, with `after` behind it. A `!` is one unless an equals
sign follows it. -/
structure Stray (c : Char) (after : List Char) : Prop where
  notBlank : c ∉ [' ', '\t', '\r', '\n']
  notName : ¬ (c.isAlpha = true ∨ c = '_')
  notDigit : c.isDigit = false
  notOpening : c ∉ ['"', ';']
  notSign : c ∉ TokenKind.signs.map (·.1)
  notUnequal : c = '!' → after.head? ≠ some '='

/-- The kind and the text of a token with `after` behind it. A string literal goes up to its first
quote that is not escaped, and a comment that one semicolon opens up to the next semicolon; either
goes up to the end of the source when there is none. -/
inductive TokenText (after : List Char) : TokenKind → List Char → Prop
  | spelled {kind : TokenKind} {text : List Char} (h : WellSpelled kind text) :
      TokenText after kind text
  | string {text value : List Char} (h : LiteralText after text value) :
      TokenText after .stringLiteral text
  | openComment {text : List Char} (last : after = []) (opened : ';' ∉ text) :
      TokenText after .comment (';' :: text)
  | stray {c : Char} (h : Stray c after) : TokenText after .unknown [c]

/-- A token that ends where it must: `after`, the text behind it, does not carry it on. -/
structure Munch (after text : List Char) (kind : TokenKind) : Prop where
  whole : TokenText after kind text
  ends : Ends kind text after

/-- Cells with the kinds of their texts, each as long as it can be. -/
def Munches : (last before : List Char) → List Cell → List TokenKind → Prop :=
  Along fun _ text after kind => Munch after text kind

/-- The inside of a string literal is made of pieces. -/
theorem Inside.exists_pieces {inside value : List Char} (h : Inside inside value) :
    ∃ pieces : List QuotedPiece, (∀ piece ∈ pieces, piece.Proper) ∧
      pieces.flatMap QuotedPiece.source = inside := by
  refine h.of_pieces ⟨[], by simp, rfl⟩ ?char ?escape
  case char =>
    rintro c _ notQuote notBackslash ⟨pieces, proper, rfl⟩
    exact ⟨.char c :: pieces, List.forall_mem_cons.mpr ⟨⟨notQuote, notBackslash⟩, proper⟩, rfl⟩
  case escape =>
    rintro c _ ⟨pieces, proper, rfl⟩
    exact ⟨.escape c :: pieces, List.forall_mem_cons.mpr ⟨trivial, proper⟩, rfl⟩

theorem LiteralText.exists_readOff {after text value : List Char}
    (h : LiteralText after text value) :
    ∃ literal, Lexeme.ReadOff text after (.quoted literal) := by
  cases h with
  | closed inside =>
    obtain ⟨pieces, proper, rfl⟩ := inside.exists_pieces
    exact ⟨_, Quoted.readOff proper .closed (.inl rfl)⟩
  | unclosed last inside =>
    obtain ⟨pieces, proper, rfl⟩ := inside.exists_pieces
    have read := Quoted.readOff proper .unclosed (.inr last)
    rw [QuotedEnd.source, List.append_nil] at read
    exact ⟨_, read⟩
  | dangling last inside =>
    obtain ⟨pieces, proper, rfl⟩ := inside.exists_pieces
    exact ⟨_, Quoted.readOff proper .dangling (.inr last)⟩

/-- Only two characters begin a comment. -/
theorem not_lineComment {c : Char} (notSlash : c ≠ '/') (notSemicolon : c ≠ ';')
    (text : List Char) : ¬ LineComment (c :: text) := by
  rintro (marks | marks)
  · exact notSlash (List.cons_prefix_cons.mp marks).1.symm
  · exact notSemicolon (List.cons_prefix_cons.mp marks).1.symm

/-- The kinds of token that what follows may carry on. -/
def TokenKind.carriedOn : List TokenKind :=
  [identifier, intLiteral, floatLiteral, assign, less, greater, slash] ++ reserved.map (·.2)

namespace Ends

variable {kind : TokenKind} {text rest : List Char}

/-- All other tokens end by themselves, but for line comments. -/
theorem of_notMem (fixed : kind ∉ TokenKind.carriedOn)
    (line : LineComment text → ∀ c ∈ rest.head?, c = '\n') : Ends kind text rest := by
  simp only [TokenKind.carriedOn, List.mem_append, List.mem_cons, List.not_mem_nil, or_false,
    not_or] at fixed
  obtain ⟨⟨name, integer, decimal, assign, less, greater, slash⟩, word⟩ := fixed
  constructor
  case word => exact fun h => absurd h (not_or.mpr ⟨name, word⟩)
  case digits => exact fun h => absurd h (not_or.mpr ⟨integer, decimal⟩)
  case point => exact fun h => absurd h integer
  case equals => exact fun h => absurd h (by simp [assign, less, greater])
  case slash => exact fun h => absurd h slash
  case line => exact line

/-- For a word the text behind matters by its first character only. -/
theorem of_word (isWord : kind = .identifier ∨ kind ∈ TokenKind.reserved.map (·.2))
    (notLine : ¬ LineComment text) (stop : ∀ c ∈ rest.head?, ¬ (c.isAlphanum = true ∨ c = '_')) :
    Ends kind text rest := by
  have other : ∀ kind ∈ .identifier :: TokenKind.reserved.map (·.2),
      kind ∉ [.intLiteral, .floatLiteral, .assign, .less, .greater, .slash] := by decide
  have notOther := other kind (List.mem_cons.mpr isWord)
  simp only [List.mem_cons, List.not_mem_nil, or_false, not_or] at notOther
  obtain ⟨integer, decimal, assign, less, greater, slash⟩ := notOther
  constructor
  case word => exact fun _ => stop
  case digits => exact fun h => absurd h (not_or.mpr ⟨integer, decimal⟩)
  case point => exact fun h => absurd h integer
  case equals => exact fun h => absurd h (by simp [assign, less, greater])
  case slash => exact fun h => absurd h slash
  case line => exact fun line => absurd line notLine

/-- For a numeral it matters by two: a point carries it on if a digit follows. -/
theorem of_integer (notLine : ¬ LineComment text) (stop : ∀ c ∈ rest.head?, c.isDigit = false)
    (noPart : ∀ c more, rest = '.' :: c :: more → c.isDigit = false) :
    Ends .intLiteral text rest := by
  constructor
  case digits => exact fun _ => stop
  case point => exact fun _ => noPart
  case line => exact fun line => absurd line notLine
  all_goals exact fun h => absurd h (by decide)

theorem of_decimal (notLine : ¬ LineComment text) (stop : ∀ c ∈ rest.head?, c.isDigit = false) :
    Ends .floatLiteral text rest := by
  constructor
  case digits => exact fun _ => stop
  case line => exact fun line => absurd line notLine
  all_goals exact fun h => absurd h (by decide)

theorem of_sign {c : Char} (sign : (c, kind) ∈ TokenKind.signs)
    (noEquals : kind ∈ [.assign, .less, .greater] → rest.head? ≠ some '=')
    (noSlash : kind = .slash → rest.head? ≠ some '/') : Ends kind [c] rest := by
  have other : ∀ entry ∈ TokenKind.signs, ¬ LineComment [entry.1] ∧
      ¬ (entry.2 = .identifier ∨ entry.2 ∈ TokenKind.reserved.map (·.2)) ∧
      ¬ (entry.2 = .intLiteral ∨ entry.2 = .floatLiteral) := by
    decide
  obtain ⟨notLine, notWord, notNumber⟩ := other _ sign
  constructor
  case word => exact fun h => absurd h notWord
  case digits => exact fun h => absurd h notNumber
  case point => exact fun h => absurd (.inl h) notNumber
  case equals => exact noEquals
  case slash => exact noSlash
  case line => exact fun line => absurd line notLine

end Ends

namespace Lexeme

variable {c : Char} {rest : List Char}

theorem punctuation?_eq_some_iff {kind : TokenKind} :
    punctuation? c = some kind ↔ (c, kind) ∈ TokenKind.signs := by
  have all : ∀ entry ∈ TokenKind.signs, punctuation? entry.1 = some entry.2 := by decide
  refine ⟨fun h => ?_, fun h => all _ h⟩
  unfold punctuation? at h
  split at h <;> cases h <;> decide

theorem withEquals?_eq_some_iff {kind : TokenKind} :
    withEquals? c = some kind ↔ (c, kind) ∈ TokenKind.doubleSigns := by
  have all : ∀ entry ∈ TokenKind.doubleSigns, withEquals? entry.1 = some entry.2 := by decide
  refine ⟨fun h => ?_, fun h => all _ h⟩
  unfold withEquals? at h
  split at h <;> cases h <;> decide

/-- A lexeme and the source after it, where the lexeme is as long as it can be. -/
def Munched (read : Lexeme × List Char) : Prop := Munch read.2 read.1.source read.1.kind

theorem munched_number (start : c.isDigit = true) : Munched (number c rest) := by
  have whole : ∀ d ∈ c :: rest.takeWhile Char.isDigit, d.isDigit = true :=
    List.forall_mem_cons.mpr ⟨start, fun d => List.mem_takeWhile_imp⟩
  have notLine : ∀ text, ¬ LineComment (c :: text) :=
    not_lineComment (by rintro rfl; cases start) (by rintro rfl; cases start)
  have stop := dropWhile_stop Char.isDigit rest
  have integer : WellSpelled .intLiteral (c :: rest.takeWhile Char.isDigit) :=
    .integer (List.cons_ne_nil _ _) whole
  unfold number
  split
  · next d after tail =>
    rw [tail] at stop
    split
    · next digit =>
      have part : ∀ e ∈ d :: after.takeWhile Char.isDigit, e.isDigit = true :=
        List.forall_mem_cons.mpr ⟨digit, fun e => List.mem_takeWhile_imp⟩
      exact ⟨.spelled (.decimal (List.cons_ne_nil _ _) (List.cons_ne_nil _ _) whole part),
        .of_decimal (notLine _) (dropWhile_stop Char.isDigit after)⟩
    · next noDigit =>
      refine ⟨.spelled integer, .of_integer (notLine _) stop fun e more same => ?_⟩
      obtain ⟨rfl, -⟩ : d = e ∧ after = more := by simpa using same
      simpa using noDigit
  · next other =>
    refine ⟨.spelled integer, .of_integer (notLine _) stop fun d more same => ?_⟩
    exact absurd same (other d more)

theorem munched_word (start : isNameStart c = true) : Munched (word c rest) := by
  have parts : ∀ d ∈ rest.takeWhile isNamePart, d.isAlphanum = true ∨ d = '_' :=
    fun d member => isNamePart_iff.mp (List.mem_takeWhile_imp member)
  have notLine : ∀ text, ¬ LineComment (c :: text) :=
    not_lineComment (by rintro rfl; cases start) (by rintro rfl; cases start)
  have stop : ∀ d ∈ (rest.dropWhile isNamePart).head?, ¬ (d.isAlphanum = true ∨ d = '_') := by
    intro d member part
    have noPart := dropWhile_stop isNamePart rest d member
    rw [isNamePart_iff.mpr part] at noPart
    cases noPart
  cases known : TokenKind.ofReserved? (String.ofList (c :: rest.takeWhile isNamePart)) with
  | none =>
    have free := TokenKind.ofReserved?_eq_none_iff.mp known
    rw [word, known]
    exact ⟨.spelled (.name (isNameStart_iff.mp start) parts free),
      .of_word (.inl rfl) (notLine _) stop⟩
  | some kind =>
    have entry := TokenKind.mem_reserved known
    have spelled := WellSpelled.reserved entry
    rw [String.toList_ofList] at spelled
    rw [word, known]
    exact ⟨.spelled spelled, .of_word (.inr (List.mem_map_of_mem entry)) (notLine _) stop⟩

theorem munched_lineComment (mark : c = '/' ∨ c = ';') (again : rest.head? = some c) :
    Munched (lineComment c rest) := by
  obtain ⟨more, rfl⟩ : ∃ more, rest = c :: more := by
    cases rest with
    | nil => cases again
    | cons d more => exact ⟨more, by rw [Option.some.inj again]⟩
  have notFeed : c ≠ '\n' := by rcases mark with rfl | rfl <;> decide
  have oneLine := not_mem_takeWhile '\n' more
  have stop : ∀ d ∈ (more.dropWhile (· ≠ '\n')).head?, d = '\n' := by
    intro d member
    simpa using dropWhile_stop (· ≠ '\n') more d member
  have split : lineComment c (c :: more) = (.plain .comment (c :: c :: more.takeWhile (· ≠ '\n')),
      more.dropWhile (· ≠ '\n')) := by
    simp [lineComment, run, notFeed]
  have fixed : TokenKind.comment ∉ TokenKind.carriedOn := by decide
  rw [split]
  exact ⟨.spelled (.lineComment mark oneLine), .of_notMem fixed fun _ => stop⟩

theorem munched_blockComment (single : rest.head? ≠ some ';') : Munched (blockComment rest) := by
  have opened := not_mem_takeWhile ';' rest
  have stop := dropWhile_stop (· ≠ ';') rest
  have parts := List.takeWhile_append_dropWhile (p := (· ≠ ';')) (l := rest)
  have fixed : TokenKind.comment ∉ TokenKind.carriedOn := by decide
  unfold blockComment
  split
  · exact ⟨.openComment rfl opened, .of_notMem fixed fun _ c member => by cases member⟩
  · next close after tail =>
    obtain rfl : close = ';' := by
      rw [tail] at stop
      simpa using stop close rfl
    generalize rest.takeWhile (· ≠ ';') = inner at opened parts ⊢
    rw [tail] at parts
    cases inner with
    | nil => exact absurd (congrArg List.head? parts).symm single
    | cons first more =>
      have notLine : ¬ LineComment (';' :: first :: more ++ [';']) := by
        rintro (marks | marks)
        · exact absurd (List.cons_prefix_cons.mp marks).1 (by decide)
        · have second := (List.cons_prefix_cons.mp (List.cons_prefix_cons.mp marks).2).1
          exact opened (second ▸ List.mem_cons_self)
      exact ⟨.spelled (.blockComment (List.cons_ne_nil _ _) opened),
        .of_notMem fixed fun line => absurd line notLine⟩

theorem munched_sign {kind : TokenKind} (sign : punctuation? c = some kind)
    (noComment : ¬ (c = '/' ∧ rest.head? = some '/'))
    (noEquals : ∀ kind more, withEquals? c = some kind → rest = '=' :: more → False) :
    Munched (.plain kind [c], rest) := by
  have known := punctuation?_eq_some_iff.mp sign
  have all : ∀ entry ∈ TokenKind.signs, (entry.2 = .slash → entry.1 = '/') ∧
      (entry.2 ∈ [.assign, .less, .greater] → (withEquals? entry.1).isSome = true) := by
    decide
  obtain ⟨slash, equals⟩ := all _ known
  refine ⟨.spelled (.sign known), .of_sign known (fun single follows => ?_) fun same follows => ?_⟩
  · obtain ⟨double, eq⟩ := Option.isSome_iff_exists.mp (equals single)
    obtain ⟨more, rfl⟩ := List.head?_eq_some_iff.mp follows
    exact noEquals double more eq rfl
  · exact noComment ⟨slash same, follows⟩

/-- A character is stray if it is none of all others, so all of them are excluded here. -/
theorem munched_stray (notBlank : isBlank c = false) (notQuote : c ≠ '"') (notSemicolon : c ≠ ';')
    (notDigit : ¬ c.isDigit = true) (notName : ¬ isNameStart c = true)
    (notSign : punctuation? c = none)
    (noEquals : ∀ kind more, withEquals? c = some kind → rest = '=' :: more → False) :
    Munched (.stray c, rest) := by
  have stray : Stray c rest := by
    constructor
    case notBlank => exact isBlank_eq_false_iff.mp notBlank
    case notName => exact fun name => notName (isNameStart_iff.mpr name)
    case notDigit => simpa using notDigit
    case notOpening => simp [notQuote, notSemicolon]
    case notSign =>
      intro member
      obtain ⟨⟨d, kind⟩, known, rfl⟩ := List.mem_map.mp member
      rw [punctuation?_eq_some_iff.mpr known] at notSign
      cases notSign
    case notUnequal =>
      rintro rfl follows
      obtain ⟨more, rfl⟩ := List.head?_eq_some_iff.mp follows
      exact noEquals .notEqual more rfl rfl
  have fixed : TokenKind.unknown ∉ TokenKind.carriedOn := by decide
  have notLine : ¬ LineComment [c] := by
    rintro (marks | marks) <;> exact absurd marks.length_le (by simp)
  exact ⟨.stray stray, .of_notMem fixed fun line => absurd line notLine⟩

/-- What is read off a source is a token as long as it can be. -/
theorem munched_read (notBlank : isBlank c = false) : Munched (read c rest) := by
  unfold read
  split
  · next quote =>
    have fixed : TokenKind.stringLiteral ∉ TokenKind.carriedOn := by decide
    refine ⟨.string (Quoted.literalText_read rest), .of_notMem fixed fun line => absurd line ?_⟩
    exact not_lineComment (by decide) (by decide) _
  next notQuote =>
  split
  · next slashes =>
    obtain ⟨rfl, again⟩ := slashes
    exact munched_lineComment (.inl rfl) again
  next noComment =>
  split
  · next semicolon =>
    subst semicolon
    split
    · next again => exact munched_lineComment (.inr rfl) again
    · next single => exact munched_blockComment single
  next notSemicolon =>
  split
  · next digit => exact munched_number digit
  next notDigit =>
  split
  · next start => exact munched_word start
  next notName =>
  split
  · next kind more double =>
    have known := withEquals?_eq_some_iff.mp double
    have all : ∀ entry ∈ TokenKind.doubleSigns, entry.2 ∉ TokenKind.carriedOn ∧
        ¬ LineComment [entry.1, '='] := by
      decide
    obtain ⟨fixed, notLine⟩ := all _ known
    exact ⟨.spelled (.doubleSign known), .of_notMem fixed fun line => absurd line notLine⟩
  · next noEquals =>
    split
    · next sign => exact munched_sign sign noComment noEquals
    · next notSign =>
      exact munched_stray notBlank notQuote notSemicolon notDigit notName notSign noEquals

end Lexeme

theorem Lexeme.ReadOff.munch {text after : List Char} {l : Lexeme} (h : ReadOff text after l) :
    Munch after text l.kind := by
  have source := h.source_eq
  obtain ⟨c, tail, rfl, notBlank, read⟩ := h
  have munched : Munched (Lexeme.read c (tail ++ after)) := munched_read notBlank
  rwa [Munched, read, source] at munched

/-- What is read off a source, and up to where, is told by the source. -/
theorem Lexeme.ReadOff.unique {text after text' after' : List Char} {l l' : Lexeme}
    (h : ReadOff text after l) (h' : ReadOff text' after' l')
    (same : text ++ after = text' ++ after') : text = text' ∧ after = after' ∧ l = l' := by
  obtain ⟨c, tail, rfl, -, read⟩ := h
  obtain ⟨c', tail', rfl, -, read'⟩ := h'
  rw [List.cons_append, List.cons_append, List.cons.injEq] at same
  obtain ⟨rfl, rest⟩ := same
  rw [rest, read'] at read
  obtain ⟨rfl, rfl⟩ := Prod.mk.inj read
  exact ⟨congrArg _ (List.append_cancel_right rest), rfl, rfl⟩

theorem Stray.readOff {c : Char} {after : List Char} (h : Stray c after) :
    Lexeme.ReadOff [c] after (.stray c) := by
  have notSign : Lexeme.punctuation? c = none := by
    refine Option.eq_none_iff_forall_ne_some.mpr fun kind sign => h.notSign ?_
    exact List.mem_map_of_mem (Lexeme.punctuation?_eq_some_iff.mp sign)
  have noEquals : ∀ kind more, Lexeme.withEquals? c = some kind → after = '=' :: more → False := by
    rintro kind more double rfl
    have all : ∀ entry ∈ TokenKind.doubleSigns,
        entry.1 = '!' ∨ entry.1 ∈ TokenKind.signs.map (·.1) := by
      decide
    rcases all _ (Lexeme.withEquals?_eq_some_iff.mp double) with unequal | sign
    · exact h.notUnequal unequal rfl
    · exact h.notSign sign
  have notSlash : c ≠ '/' := by
    rintro rfl
    exact h.notSign (by decide)
  have notName : ¬ Lexeme.isNameStart c = true :=
    fun start => h.notName (Lexeme.isNameStart_iff.mp start)
  have notOpening := h.notOpening
  simp only [List.mem_cons, List.not_mem_nil, or_false, not_or] at notOpening
  refine ⟨c, [], rfl, Lexeme.isBlank_eq_false_iff.mpr h.notBlank, ?_⟩
  unfold Lexeme.read
  rw [List.nil_append, if_neg notOpening.1, if_neg fun both => notSlash both.1,
    if_neg notOpening.2, if_neg (by simp [h.notDigit]), if_neg notName]
  split
  · next double => exact (noEquals _ _ double rfl).elim
  · rw [notSign]

/-- A comment with one mark goes on to the end of the source when no other mark follows. -/
theorem Lexeme.openComment_readOff {text : List Char} (opened : ';' ∉ text) :
    ReadOff (';' :: text) [] (.plain .comment (';' :: text)) := by
  have inside : ∀ c ∈ text, decide (c ≠ ';') = true :=
    fun c member => decide_eq_true fun mark => opened (mark ▸ member)
  have single : text.head? ≠ some ';' := fun mark => opened (List.mem_of_head? mark)
  have split := span_of_stop (p := (· ≠ ';')) inside (by simp : ∀ c ∈ [].head?, _)
  rw [List.append_nil] at split
  refine ⟨';', text, rfl, by decide, ?_⟩
  rw [List.append_nil]
  simp only [read, single, blockComment, split.1, split.2]
  rfl

/-- A token that ends where it must is what the scanner reads there. -/
theorem Munch.exists_readOff {after text : List Char} {kind : TokenKind}
    (h : Munch after text kind) : ∃ l, Lexeme.ReadOff text after l ∧ l.kind = kind := by
  obtain ⟨whole, ends⟩ := h
  cases whole with
  | spelled spelled => exact ⟨_, spelled.readOff ends, rfl⟩
  | string literal =>
    obtain ⟨l, read⟩ := literal.exists_readOff
    exact ⟨_, read, rfl⟩
  | @openComment inner last opened =>
    subst last
    exact ⟨_, Lexeme.openComment_readOff opened, rfl⟩
  | stray stray => exact ⟨_, stray.readOff, rfl⟩

/-- The rules leave the scanner no choice: text and kind follow from what is ahead. -/
theorem Munch.unique {text after text' after' : List Char} {kind kind' : TokenKind}
    (h : Munch after text kind) (h' : Munch after' text' kind')
    (same : text ++ after = text' ++ after') : text = text' ∧ after = after' ∧ kind = kind' := by
  obtain ⟨l, read, rfl⟩ := h.exists_readOff
  obtain ⟨l', read', rfl⟩ := h'.exists_readOff
  obtain ⟨sameText, sameAfter, rfl⟩ := read.unique read' same
  exact ⟨sameText, sameAfter, rfl⟩

theorem Munch.exists_cons {after text : List Char} {kind : TokenKind} (h : Munch after text kind) :
    ∃ c tail, text = c :: tail ∧ Lexeme.isBlank c = false := by
  obtain ⟨l, ⟨c, tail, whole, notBlank, -⟩, -⟩ := h.exists_readOff
  exact ⟨c, tail, whole, notBlank⟩

/-- Blanks go up to the first character that is none. -/
theorem Blank.span {blanks rest : List Char} (h : Blank blanks)
    (stop : ∀ c ∈ rest.head?, Lexeme.isBlank c = false) :
    (blanks ++ rest).takeWhile Lexeme.isBlank = blanks ∧
      (blanks ++ rest).dropWhile Lexeme.isBlank = rest :=
  span_of_stop (fun c member => Lexeme.isBlank_iff.mpr (h c member)) stop

/-- A token behind blanks is told by the source that starts with the blanks. -/
theorem Munch.unique_behind {blanks text after blanks' text' after' : List Char}
    {kind kind' : TokenKind} (h : Munch after text kind) (h' : Munch after' text' kind')
    (blank : Blank blanks) (blank' : Blank blanks')
    (same : blanks ++ (text ++ after) = blanks' ++ (text' ++ after')) :
    blanks = blanks' ∧ text = text' ∧ after = after' ∧ kind = kind' := by
  have starts : ∀ {after text kind}, Munch after text kind →
      ∀ c ∈ (text ++ after).head?, Lexeme.isBlank c = false := by
    intro after text kind munch
    obtain ⟨c, tail, rfl, notBlank⟩ := munch.exists_cons
    rintro d ⟨⟩
    exact notBlank
  obtain ⟨gap, behind⟩ := blank.span (starts h)
  obtain ⟨gap', behind'⟩ := blank'.span (starts h')
  rw [same, gap'] at gap
  rw [same, behind'] at behind
  exact ⟨gap.symm, h.unique h' behind.symm⟩

/-- No token is left among blanks. -/
theorem Munch.not_blank {blanks text after : List Char} {kind : TokenKind}
    (h : Munch after text kind) : ¬ Blank (blanks ++ text ++ after) := by
  obtain ⟨c, tail, rfl, notBlank⟩ := h.exists_cons
  exact fun blank => Lexeme.isBlank_eq_false_iff.mp notBlank (blank c (by simp))

/-- A source is cut into tokens that are as long as they can be in one way only. -/
theorem Munches.unique {last last' before : List Char} {cells cells' : List Cell}
    {kinds kinds' : List TokenKind} (h : Munches last before cells kinds)
    (h' : Munches last' before cells' kinds') (final : Blank last) (final' : Blank last')
    (same : cells.flatMap Cell.source ++ last = cells'.flatMap Cell.source ++ last') :
    cells' = cells ∧ last' = last ∧ kinds' = kinds := by
  induction h generalizing cells' kinds' with
  | nil =>
    cases h' with
    | nil => exact ⟨rfl, same.symm, rfl⟩
    | cons blank munch more =>
      refine absurd final ?_
      rw [List.flatMap_nil, List.nil_append] at same
      rw [same, List.flatMap_cons, List.append_assoc]
      exact munch.not_blank
  | @cons before cell cells kind kinds blank munch more ih =>
    cases h' with
    | nil =>
      refine absurd final' ?_
      rw [List.flatMap_nil, List.nil_append] at same
      rw [← same, List.flatMap_cons, List.append_assoc]
      exact munch.not_blank
    | @cons _ cell' cells' kind' kinds' blank' munch' more' =>
      simp only [List.flatMap_cons, Cell.source, List.append_assoc] at same
      obtain ⟨gap, text, behind, rfl⟩ := munch.unique_behind munch' blank blank' same
      obtain rfl : cell = cell' := by
        cases cell
        cases cell'
        exact congrArg₂ Cell.mk gap text
      obtain ⟨rfl, rfl, rfl⟩ := ih more' behind
      exact ⟨rfl, rfl, rfl⟩

/-- The tokens of a scan are as long as they can be, and the source tells what they are and where
they end. -/
theorem Sink.scan_munches (sink : Sink) (source : String) :
    ∃ cells last tokens mark,
      source.toList = cells.flatMap Cell.source ++ last ∧ Blank last ∧
      Scans last [] cells tokens ∧ (sink.scan source).1 = tokens ++ [mark] ∧
      mark.kind = .endOfInput ∧ Munches last [] cells (tokens.map Token.kind) ∧
      ∀ cells' last' kinds, source.toList = cells'.flatMap Cell.source ++ last' → Blank last' →
        Munches last' [] cells' kinds →
        cells' = cells ∧ last' = last ∧ kinds = tokens.map Token.kind := by
  obtain ⟨cells, last, whole, final, along⟩ := Tile.cut_along [] source.toList
  rw [Location.past_nil] at along
  have stands := along.map (f := fun entry => entry.1.token entry.2)
    fun before text after entry read => read.2 ▸ read.1.token_stands before
  have munches : Munches last [] cells _ := along.map (f := fun entry => entry.1.kind)
    fun before text after entry read => read.1.munch
  refine ⟨cells, last, _, _, whole, final, stands.scans, Scan.tokens_ofSource source, rfl, ?_, ?_⟩
  · rw [List.map_map]
    exact munches
  · intro cells' last' kinds whole' final' munches'
    rw [List.map_map]
    exact munches.unique munches' final final' (whole.symm.trans whole')

end Quill
