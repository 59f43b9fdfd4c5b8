import Mathlib.Data.List.Induction
import Mathlib.Data.Nat.Digits.Defs
import Quill.Proofs.Lexeme.Munch

/-!
Runs of digits. The token of an integer literal is a run of digits that the source has at its place:
all digits that stand there, and no others (`Sink.scan_digitRun`). Behind it no digit follows since
the token is as long as it can be; in front of it none stands since the token before it is.
-/
namespace Quill

/-- The number that digits write in base ten. -/
def Numeral.decimalValue (digits : List Char) : Nat :=
  Nat.ofDigits 10 (digits.reverse.map fun c => c.toNat - '0'.toNat)

theorem Numeral.ofDigits_eq_decimalValue (digits : List Char) :
    ofDigits digits = decimalValue digits := by
  induction digits using List.reverseRecOn with
  | nil => rfl
  | append_singleton digits c ih =>
    rw [decimalValue, List.reverse_append, List.reverse_singleton, List.singleton_append,
      List.map_cons, Nat.ofDigits_cons, ← decimalValue, ← ih, ofDigits, List.foldl_append]
    exact Nat.add_comm _ _

/-- No two digits stand on both sides of a place. -/
def Parted (before after : List Char) : Prop :=
  (∀ c ∈ before.getLast?, c.isDigit = false) ∨ ∀ c ∈ after.head?, c.isDigit = false

/-- The digits that a source has at a place, all that there are. -/
structure DigitRun (source : List Char) (place : Location) (run : List Char) : Prop where
  nonempty : run ≠ []
  digits : ∀ c ∈ run, c.isDigit = true
  maximal : ∃ before after, source = before ++ run ++ after ∧ place = .past before ∧
    (∀ c ∈ before.getLast?, c.isDigit = false) ∧ ∀ c ∈ after.head?, c.isDigit = false

namespace Parted

variable {before text after : List Char}

theorem of_last {c : Char} (h : c.isDigit = false) : Parted (text ++ [c]) after := by
  refine .inl fun d last => ?_
  rw [List.getLast?_concat, Option.mem_some_iff] at last
  exact last ▸ h

theorem of_nil (h : after = []) : Parted text after := by
  subst h
  exact .inr nofun

theorem append_left (nonempty : text ≠ []) (h : Parted text after) :
    Parted (before ++ text) after := by
  refine h.imp_left fun noDigit c last => noDigit c ?_
  rw [List.getLast?_append, List.getLast?_eq_some_getLast nonempty, Option.some_or] at last
  rwa [List.getLast?_eq_some_getLast nonempty]

theorem append_blanks {blanks : List Char} (blank : Blank blanks)
    (h : Parted before (blanks ++ after)) : Parted (before ++ blanks) after := by
  cases blanks using List.reverseRecOn with
  | nil => rwa [List.append_nil]
  | append_singleton blanks c =>
    have noDigit : ∀ c ∈ [' ', '\t', '\r', '\n'], c.isDigit = false := by decide
    rw [← List.append_assoc]
    exact of_last (noDigit c (blank c (by simp)))

end Parted

/-- A token whose last character is a digit goes on as long as digits follow. -/
theorem Munch.parted {text after : List Char} {kind : TokenKind} (h : Munch after text kind) :
    Parted text after := by
  obtain ⟨whole, ends⟩ := h
  have behindWord (word : kind = .identifier ∨ kind ∈ TokenKind.reserved.map (·.2)) :
      Parted text after := by
    refine .inr fun c head => ?_
    have stop := ends.word word c head
    simp only [Char.isAlphanum, Bool.or_eq_true, not_or, Bool.not_eq_true] at stop
    exact stop.1.2
  cases whole with
  | spelled spelled =>
    cases spelled with
    | name => exact behindWord (.inl rfl)
    | reserved listed => exact behindWord (.inr (List.mem_map_of_mem listed))
    | integer => exact .inr (ends.digits (.inl rfl))
    | decimal => exact .inr (ends.digits (.inr rfl))
    | @sign c kind listed =>
      have noDigit : ∀ sign ∈ TokenKind.signs, sign.1.isDigit = false := by decide
      exact @Parted.of_last [] after c (noDigit _ listed)
    | @doubleSign c => exact @Parted.of_last [c] after '=' (by decide)
    | @lineComment mark text marks =>
      have line : LineComment (mark :: mark :: text) := by
        rcases marks with rfl | rfl
        · exact .inl ⟨text, rfl⟩
        · exact .inr ⟨text, rfl⟩
      refine .inr fun c head => ?_
      rw [ends.line line c head]
      decide
    | @blockComment text => exact @Parted.of_last (';' :: text) after ';' (by decide)
  | string literal =>
    cases literal with
    | @closed inside => exact @Parted.of_last ('"' :: inside) after '"' (by decide)
    | unclosed last => exact .of_nil last
    | dangling last => exact .of_nil last
  | openComment last => exact .of_nil last
  | @stray c stray => exact @Parted.of_last [] after c stray.notDigit

/-- Along cells whose items are apart from what is behind them, they are apart from what is in front
of them. -/
theorem Along.parted {α : Type} {P : List Char → List Char → List Char → α → Prop}
    {last before : List Char} {cells : List Cell} {items : List α}
    (h : Along P last before cells items)
    (behind : ∀ before text after item, P before text after item →
      text ≠ [] ∧ Parted text after)
    (start : Parted before (cells.flatMap Cell.source ++ last)) :
    Along (fun before text after item => P before text after item ∧ Parted before (text ++ after))
      last before cells items := by
  induction h with
  | nil => exact .nil
  | @cons before cell cells item items blank holds _ ih =>
    obtain ⟨nonempty, apart⟩ := behind _ _ _ _ holds
    have front : Parted (before ++ cell.blanks)
        (cell.text ++ (cells.flatMap Cell.source ++ last)) := by
      refine Parted.append_blanks blank ?_
      simpa [Cell.source] using start
    refine .cons blank ⟨holds, front⟩ (ih ?_)
    rw [Cell.source, ← List.append_assoc]
    exact apart.append_left nonempty

/-- The text of an integer literal is digits. -/
theorem TokenText.integer {after text : List Char} (h : TokenText after .intLiteral text) :
    text ≠ [] ∧ ∀ c ∈ text, c.isDigit = true := by
  have others : (∀ entry ∈ TokenKind.reserved, entry.2 ≠ .intLiteral) ∧
      (∀ entry ∈ TokenKind.signs, entry.2 ≠ .intLiteral) ∧
      ∀ entry ∈ TokenKind.doubleSigns, entry.2 ≠ .intLiteral := by decide
  cases h with
  | spelled spelled =>
    generalize same : TokenKind.intLiteral = kind at spelled
    cases spelled with
    | integer nonempty digits => exact ⟨nonempty, digits⟩
    | reserved listed => exact absurd same.symm (others.1 _ listed)
    | sign listed => exact absurd same.symm (others.2.1 _ listed)
    | doubleSign listed => exact absurd same.symm (others.2.2 _ listed)
    | name | decimal | lineComment | blockComment => cases same

/-- A token of an integer literal in the scan of a source: its lexeme is the digits that stand at
its place, and it ends with the last of them. -/
theorem Sink.scan_digitRun (sink : Sink) (source : String) {t : Token}
    (member : t ∈ (sink.scan source).1) (kind : t.kind = .intLiteral) :
    DigitRun source.toList t.location t.lexeme.toList ∧
      t.endColumn = t.location.column + t.lexeme.toList.length - 1 := by
  obtain ⟨cells, last, whole, -, along⟩ := Tile.cut_along [] source.toList
  have tokens := along.map (f := fun entry => entry.1.token entry.2)
    (Q := fun before text after t => t.Stands before text after ∧ Munch after text t.kind)
    fun before text after entry read => ⟨read.2 ▸ read.1.token_stands before, read.1.munch⟩
  have apart := tokens.parted (fun before text after t holds => ⟨holds.1.nonempty, holds.2.parted⟩)
    (.inl nofun)
  have listed : t ∈ (Tile.placed (.past []) (Tile.cut source.toList)).map
      fun entry => entry.1.token entry.2 := by
    have scanned : (sink.scan source).1 = _ := Scan.tokens_ofSource source
    rw [scanned] at member
    refine (List.mem_append.mp member).resolve_right fun mark => ?_
    rw [List.mem_singleton.mp mark] at kind
    cases kind
  obtain ⟨front, back, split⟩ := List.append_of_mem listed
  rw [split] at apart
  obtain ⟨ahead, text, behind, source_eq, ⟨⟨stands, munch⟩, parted⟩, -⟩ := apart.exists_split
  rw [kind] at munch
  obtain ⟨nonempty, digits⟩ := munch.whole.integer
  obtain ⟨-, spelled, place, front, c, line, column⟩ := stands
  have lexeme : t.lexeme.toList = text := by
    rw [kind] at spelled
    cases spelled
    rfl
  have oneLine : text.takeWhile (· ≠ '\n') = text := by
    refine List.takeWhile_eq_self_iff.mpr fun d among => decide_eq_true ?_
    rintro rfl
    exact absurd (digits _ among) (by decide)
  rw [oneLine] at line
  rw [lexeme]
  refine ⟨⟨nonempty, digits, ahead, _, whole.trans source_eq, place, ?_, ?_⟩, ?_⟩
  · refine parted.resolve_right fun noDigit => ?_
    obtain ⟨d, more, rfl⟩ := List.exists_cons_of_ne_nil nonempty
    exact absurd (digits d List.mem_cons_self) (Bool.eq_false_iff.mp (noDigit d rfl))
  · exact munch.ends.digits (.inl rfl)
  · have inside : ∀ d ∈ front, d ∈ text := fun d among => line ▸ List.mem_append_left [c] among
    have feedless : '\n' ∉ front :=
      fun among => absurd (digits _ (inside _ among)) (by decide)
    rw [column, place, Location.column_past _ feedless, line, List.length_append,
      List.length_singleton, Nat.add_sub_assoc (Nat.le_add_left 1 _), Nat.add_sub_cancel]

end Quill
