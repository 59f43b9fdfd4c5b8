import Quill.Compilation
import Quill.Proofs.Lexeme.Writing
import Quill.Proofs.Location

/-!
The tokens of a scan tile its source: blanks, the text of a token, blanks, and so on, up to the end
mark. Each token stands where its text does.
-/
namespace Quill

/-- The text of a token, and the blanks in front of it. -/
structure Cell where
  blanks : List Char
  text : List Char
  deriving DecidableEq, Repr

def Cell.source (cell : Cell) : List Char := cell.blanks ++ cell.text

/-- Nothing but space, tab, carriage return and line feed. -/
def Blank (text : List Char) : Prop := ∀ c ∈ text, c ∈ [' ', '\t', '\r', '\n']

/-- A token of its own `text`, between two other texts. It ends with the last character of its first
line. -/
structure Token.Stands (before text after : List Char) (t : Token) : Prop where
  nonempty : text ≠ []
  spelled : Spells after text t.kind t.lexeme.toList
  location : t.location = .past before
  endColumn : ∃ front c, text.takeWhile (· ≠ '\n') = front ++ [c] ∧
    t.endColumn = (Location.past (before ++ front)).column

/-- The tokens of cells, with `before` in front of the cells and `last` after them. -/
inductive Scans (last : List Char) : List Char → List Cell → List Token → Prop
  | nil {before : List Char} : Scans last before [] []
  | cons {before : List Char} {cell : Cell} {cells : List Cell} {t : Token} {tokens : List Token}
      (blank : Blank cell.blanks)
      (stands : t.Stands (before ++ cell.blanks) cell.text (cells.flatMap Cell.source ++ last))
      (more : Scans last (before ++ cell.source) cells tokens) :
      Scans last before (cell :: cells) (t :: tokens)

theorem Blank.cons {c : Char} {text : List Char} (first : Lexeme.isBlank c = true)
    (h : Blank text) : Blank (c :: text) := by
  intro d member
  rcases List.mem_cons.mp member with rfl | more
  · exact Lexeme.isBlank_iff.mp first
  · exact h d more

/-- The token of a lexeme that is read between two texts. -/
theorem Lexeme.token_stands (before : List Char) (c : Char) (rest : List Char)
    (notBlank : isBlank c = false) :
    ((read c rest).1.token (.past before)).Stands before (read c rest).1.source
      (read c rest).2 := by
  obtain ⟨more, text⟩ := exists_source_read c rest
  have notFeed : c ≠ '\n' := by
    intro feed
    rw [feed] at notBlank
    cases notBlank
  refine ⟨by simp [text], ?_, rfl, ?_⟩
  · have shown := shown_read c rest
    simpa [Shown, token, Token.upTo] using shown
  · have line : (read c rest).1.source.takeWhile (· ≠ '\n') ≠ [] := by simp [text, notFeed]
    have split := List.dropLast_concat_getLast line
    refine ⟨_, _, split.symm, ?_⟩
    have within : '\n' ∉ ((read c rest).1.source.takeWhile (· ≠ '\n')).dropLast :=
      fun member => not_mem_takeWhile _ _ (List.dropLast_subset _ member)
    have length := congrArg List.length split
    rw [List.length_append, List.length_singleton] at length
    rw [Location.column_past before within]
    simp only [token, Token.upTo]
    omega

/-- The lexeme that is read off a source is the text that it is read from. -/
theorem Lexeme.ReadOff.source_eq {text rest : List Char} {l : Lexeme} (h : ReadOff text rest l) :
    l.source = text := by
  obtain ⟨c, tail, rfl, -, read⟩ := h
  have whole := source_read c (tail ++ rest)
  rw [read, ← List.cons_append] at whole
  exact List.append_cancel_right whole

theorem Lexeme.ReadOff.token_stands {text after : List Char} {l : Lexeme}
    (h : ReadOff text after l) (before : List Char) :
    (l.token (.past before)).Stands before text after := by
  have source := h.source_eq
  obtain ⟨c, tail, rfl, notBlank, read⟩ := h
  have stands := Lexeme.token_stands before c (tail ++ after) notBlank
  rwa [read, source] at stands

/-- Cells with an item each. What holds of an item holds of it with the text in front of the cell's
own text, that text, and the text behind it. `before` is in front of the cells and `last` behind
them. -/
inductive Along {α : Type} (P : List Char → List Char → List Char → α → Prop) (last : List Char) :
    List Char → List Cell → List α → Prop
  | nil {before : List Char} : Along P last before [] []
  | cons {before : List Char} {cell : Cell} {cells : List Cell} {item : α} {items : List α}
      (blank : Blank cell.blanks)
      (holds : P (before ++ cell.blanks) cell.text (cells.flatMap Cell.source ++ last) item)
      (more : Along P last (before ++ cell.source) cells items) :
      Along P last before (cell :: cells) (item :: items)

namespace Along

variable {α β : Type} {P : List Char → List Char → List Char → α → Prop} {last before : List Char}
  {cells : List Cell} {items : List α}

theorem map {Q : List Char → List Char → List Char → β → Prop} {f : α → β}
    (h : Along P last before cells items)
    (onto : ∀ before text after item, P before text after item → Q before text after (f item)) :
    Along Q last before cells (items.map f) := by
  induction h with
  | nil => exact .nil
  | cons blank holds _ ih => exact .cons blank (onto _ _ _ _ holds) ih

/-- A blank in front of a cell is a blank of the cell. -/
theorem cons_blank {c : Char} {cell : Cell} (blank : Lexeme.isBlank c = true)
    (h : Along P last (before ++ [c]) (cell :: cells) items) :
    Along P last before (⟨c :: cell.blanks, cell.text⟩ :: cells) items := by
  cases h with
  | cons blanks holds more =>
    refine .cons (blanks.cons blank) ?_ ?_
    · simpa using holds
    · simpa [Cell.source] using more

/-- An item has a text of its own among those of the cells, and the items behind it have theirs
behind that. -/
theorem exists_split {front back : List α} {item : α}
    (h : Along P last before cells (front ++ item :: back)) :
    ∃ ahead text behind,
      cells.flatMap Cell.source ++ last =
        ahead ++ text ++ (behind.flatMap Cell.source ++ last) ∧
      P (before ++ ahead) text (behind.flatMap Cell.source ++ last) item ∧
      Along P last (before ++ ahead ++ text) behind back := by
  induction front generalizing before cells with
  | nil =>
    cases h with
    | @cons _ cell behind _ _ _ holds more =>
      refine ⟨cell.blanks, cell.text, behind, ?_, holds, ?_⟩
      · rw [List.flatMap_cons, Cell.source, List.append_assoc (cell.blanks ++ cell.text)]
      · rwa [List.append_assoc]
  | cons other front ih =>
    cases h with
    | @cons _ cell _ _ _ _ _ more =>
      obtain ⟨ahead, text, behind, whole, holds, rest⟩ := ih more
      refine ⟨cell.source ++ ahead, text, behind, ?_, ?_, ?_⟩
      · rw [List.flatMap_cons, List.append_assoc, whole]
        simp only [List.append_assoc]
      · rwa [← List.append_assoc]
      · rwa [← List.append_assoc]

theorem scans {tokens : List Token}
    (h : Along (fun before text after t => t.Stands before text after) last before cells tokens) :
    Scans last before cells tokens := by
  induction h with
  | nil => exact .nil
  | cons blank stands _ ih => exact .cons blank stands ih

end Along

namespace Tile

/-- The lexemes of tiles that start at `here`, each with its place. -/
def placed (here : Location) : List Tile → List (Lexeme × Location)
  | [] => []
  | blank c :: tiles => placed (here.step c) tiles
  | lexeme l :: tiles => (l, here) :: placed (here.after l.source) tiles

theorem tokens_eq_map (here : Location) (tiles : List Tile) :
    tokens here tiles = (placed here tiles).map (fun entry => entry.1.token entry.2) ++
      [.endMark (here.after (tiles.flatMap source))] := by
  induction tiles generalizing here with
  | nil => rfl
  | cons tile tiles ih =>
    cases tile with
    | blank c => exact ih (here.step c)
    | lexeme l =>
      rw [tokens, ih, placed, List.flatMap_cons, source, Location.after_append]
      rfl

theorem errors_eq_flatMap (here : Location) (tiles : List Tile) :
    errors here tiles = (placed here tiles).flatMap fun entry => entry.1.errors entry.2 := by
  induction tiles generalizing here with
  | nil => rfl
  | cons tile tiles ih =>
    cases tile with
    | blank c => exact ih (here.step c)
    | lexeme l => rw [errors, ih, placed, List.flatMap_cons]

/-- A text is cut into cells with a lexeme each, which is read off the text where it stands. -/
theorem cut_along (before text : List Char) :
    ∃ cells last, text = cells.flatMap Cell.source ++ last ∧ Blank last ∧
      Along (fun before text after entry =>
        Lexeme.ReadOff text after entry.1 ∧ entry.2 = .past before) last before cells
        (placed (.past before) (cut text)) := by
  fun_induction cut text generalizing before with
  | case1 => exact ⟨[], [], rfl, by simp [Blank], .nil⟩
  | case2 c rest blank ih =>
    obtain ⟨cells, last, whole, final, along⟩ := ih (before ++ [c])
    rw [placed, ← Location.past_concat]
    cases cells with
    | nil =>
      refine ⟨[], c :: last, ?_, final.cons blank, ?_⟩
      · simpa using whole
      · generalize placed (.past (before ++ [c])) (cut rest) = entries at along ⊢
        cases along
        exact .nil
    | cons cell cells =>
      refine ⟨⟨c :: cell.blanks, cell.text⟩ :: cells, last, ?_, final, along.cons_blank blank⟩
      simpa [Cell.source] using whole
  | case3 c rest notBlank ih =>
    have text := Lexeme.source_read c rest
    obtain ⟨tail, source⟩ := Lexeme.exists_source_read c rest
    obtain ⟨cells, last, whole, final, along⟩ := ih (before ++ (Lexeme.read c rest).1.source)
    refine ⟨⟨[], (Lexeme.read c rest).1.source⟩ :: cells, last, ?_, final, ?_⟩
    · rw [List.flatMap_cons, List.append_assoc, ← whole]
      exact text.symm
    · rw [placed, Location.after_past]
      refine .cons (by simp [Blank]) ⟨⟨c, tail, source, by simpa using notBlank, ?_⟩, ?_⟩ along
      · rw [source, whole, List.cons_append, List.cons.injEq] at text
        rw [text.2, ← whole]
      · rw [List.append_nil]

/-- The scan of `text`, with `before` in front of it. -/
theorem cut_scans (before text : List Char) :
    ∃ cells last tokens, text = cells.flatMap Cell.source ++ last ∧ Blank last ∧
      Scans last before cells tokens ∧
      Tile.tokens (.past before) (cut text) = tokens ++ [.endMark (.past (before ++ text))] := by
  obtain ⟨cells, last, whole, final, along⟩ := cut_along before text
  have stands := along.map (f := fun entry => entry.1.token entry.2)
    fun before text after entry read => read.2 ▸ read.1.token_stands before
  refine ⟨cells, last, _, whole, final, stands.scans, ?_⟩
  rw [tokens_eq_map, source_cut, Location.after_past]

end Tile

namespace Scan

theorem tokens_ofSource (source : String) :
    (ofSource source).tokens = (Tile.placed .start (Tile.cut source.toList)).map
      (fun entry => entry.1.token entry.2) ++ [.endMark (.past source.toList)] := by
  have ended := Location.after_past [] source.toList
  rw [Location.past_nil, List.nil_append] at ended
  rw [ofSource, Tile.tokens_eq_map, Tile.source_cut, ended]

theorem errors_ofSource (source : String) :
    (ofSource source).errors = (Tile.placed .start (Tile.cut source.toList)).flatMap
      fun entry => entry.1.errors entry.2 :=
  Tile.errors_eq_flatMap ..

end Scan

theorem Scans.location {last before : List Char} {cells : List Cell} {tokens : List Token}
    (h : Scans last before cells tokens) :
    ∀ t ∈ tokens, ∃ more, t.location = .past (before ++ more) := by
  induction h with
  | nil => simp
  | @cons before cell cells t tokens _ stands _ ih =>
    rw [List.forall_mem_cons]
    refine ⟨⟨cell.blanks, stands.location⟩, fun other member => ?_⟩
    obtain ⟨more, place⟩ := ih other member
    exact ⟨cell.source ++ more, by rw [place, List.append_assoc]⟩

/-- Each token stands in front of the ones after it, and of the end of the source. -/
theorem Scans.increasing {last before : List Char} {cells : List Cell} {tokens : List Token}
    (h : Scans last before cells tokens) :
    (tokens.map Token.location ++
      [Location.past (before ++ (cells.flatMap Cell.source ++ last))]).Pairwise
      Location.Precedes := by
  induction h with
  | nil => simp
  | @cons before cell cells t tokens _ stands more ih =>
    rw [List.map_cons, List.cons_append, List.pairwise_cons]
    rw [List.flatMap_cons, List.append_assoc, ← List.append_assoc before]
    refine ⟨?_, ih⟩
    have further : ∀ after, t.location.Precedes (.past (before ++ cell.source ++ after)) := by
      intro after
      have more := List.append_ne_nil_of_left_ne_nil stands.nonempty after
      have longer := Location.past_precedes (before ++ cell.blanks) more
      rw [stands.location]
      simpa [Cell.source] using longer
    intro place member
    rcases List.mem_append.mp member with inside | final
    · obtain ⟨other, found, rfl⟩ := List.mem_map.mp inside
      obtain ⟨after, same⟩ := more.location other found
      rw [same]
      exact further after
    · rw [List.mem_singleton.mp final]
      exact further _

/-- The scan of a source gives the tokens of the cells that tile it, in order, and one end mark just
past its last character. All stand at different places, each behind the ones before it. -/
theorem Sink.scan_tiles (sink : Sink) (source : String) :
    ∃ cells last tokens mark,
      source.toList = cells.flatMap Cell.source ++ last ∧ Blank last ∧
      Scans last [] cells tokens ∧ (sink.scan source).1 = tokens ++ [mark] ∧
      mark = ⟨.endOfInput, "", .past source.toList, (Location.past source.toList).column⟩ ∧
      ((sink.scan source).1.map Token.location).Pairwise Location.Precedes := by
  obtain ⟨cells, last, tokens, whole, final, scans, eq⟩ := Tile.cut_scans [] source.toList
  rw [Location.past_nil] at eq
  have found : (sink.scan source).1 = tokens ++ [.endMark (.past source.toList)] := eq
  have increasing := scans.increasing
  refine ⟨cells, last, tokens, _, whole, final, scans, found, ?_, ?_⟩
  · simp [Token.endMark, Token.spelled, Token.upTo]
  · rw [found, List.map_append]
    rw [← whole] at increasing
    exact increasing

end Quill
