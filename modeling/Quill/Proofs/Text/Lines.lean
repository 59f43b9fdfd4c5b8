import Mathlib.Data.List.TakeWhile
import Quill.Proofs.Location
import Quill.Text.Lines

/-!
The lines of a text and the positions in it. Both count line feeds, so a position leads to its
character in its line: a carriage return that belongs to a line end is the only character but a line
feed that no line has.
-/
namespace Quill.Text

/-- A line without the carriage return that belongs to its end. -/
def withoutReturn (line : List Char) : List Char :=
  if line.getLast? = some '\r' then line.dropLast else line

theorem withoutReturn_cons (c : Char) {line : List Char} (notEmpty : line ≠ []) :
    withoutReturn (c :: line) = c :: withoutReturn line := by
  obtain ⟨d, more, rfl⟩ := List.exists_cons_of_ne_nil notEmpty
  simp only [withoutReturn, List.getLast?_cons_cons, List.dropLast_cons_cons]
  split <;> rfl

/-- A character that is no carriage return at the end of the line stays. -/
theorem exists_withoutReturn_append (before : List Char) {c : Char} {more : List Char}
    (h : c ≠ '\r' ∨ more ≠ []) :
    ∃ left, withoutReturn (before ++ c :: more) = before ++ c :: left := by
  induction before with
  | nil =>
    by_cases last : more = []
    · subst last
      refine ⟨[], ?_⟩
      have other : c ≠ '\r' := by simpa using h
      simp [withoutReturn, other]
    · exact ⟨withoutReturn more, withoutReturn_cons c last⟩
  | cons d before ih =>
    obtain ⟨left, same⟩ := ih
    refine ⟨left, ?_⟩
    rw [List.cons_append, withoutReturn_cons d (by simp), same]
    rfl

/-- The lines of a text that goes on in the line that it begins. -/
theorem lines_cons {c : Char} {text : List Char} (notFeed : c ≠ '\n')
    (notEnd : c ≠ '\r' ∨ text.head? ≠ some '\n') :
    lines (c :: text) = (c :: (lines text).headD []) :: (lines text).tail := by
  rw [lines.eq_def]
  split
  · next empty => cases empty
  · next same =>
    cases same
    simp at notEnd
  · next same =>
    cases same
    rw [if_neg notFeed]
    cases lines text <;> rfl

/-- The first line of a text that has a line feed. -/
theorem lines_append_cons {line : List Char} (h : '\n' ∉ line) (rest : List Char) :
    lines (line ++ '\n' :: rest) = withoutReturn line :: lines rest := by
  induction line with
  | nil => simp [lines, withoutReturn]
  | cons c line ih =>
    have notFeed : c ≠ '\n' := fun feed => h (by simp [feed])
    have within : '\n' ∉ line := fun member => h (List.mem_cons_of_mem c member)
    have more := ih within
    by_cases last : line = []
    · subst last
      by_cases carriage : c = '\r'
      · simp [carriage, lines, withoutReturn]
      · rw [List.nil_append] at more
        rw [List.cons_append, List.nil_append, lines_cons notFeed (.inl carriage), more]
        simp [withoutReturn, carriage]
    · have front : (line ++ '\n' :: rest).head? ≠ some '\n' := by
        obtain ⟨d, others, rfl⟩ := List.exists_cons_of_ne_nil last
        simpa using Ne.symm (List.ne_of_not_mem_cons within)
      rw [List.cons_append, lines_cons notFeed (.inr front), more, withoutReturn_cons c last]
      rfl

/-- A text without a line feed is one line. -/
theorem lines_of_not_mem {line : List Char} (h : '\n' ∉ line) (notEmpty : line ≠ []) :
    lines line = [line] := by
  induction line with
  | nil => exact absurd rfl notEmpty
  | cons c line ih =>
    have notFeed : c ≠ '\n' := fun feed => h (by simp [feed])
    have within : '\n' ∉ line := fun member => h (List.mem_cons_of_mem c member)
    have front : line.head? ≠ some '\n' := fun first =>
      within (List.mem_of_mem_head? first)
    rw [lines_cons notFeed (.inr front)]
    by_cases last : line = []
    · rw [last]
      rfl
    · rw [ih within last]
      rfl

/-- A text up to its first line feed, and what follows that. -/
theorem exists_feed {text : List Char} (h : '\n' ∈ text) :
    ∃ line rest, text = line ++ '\n' :: rest ∧ '\n' ∉ line := by
  induction text with
  | nil => cases h
  | cons c text ih =>
    by_cases feed : c = '\n'
    · exact ⟨[], text, by rw [feed]; rfl, by simp⟩
    · have later : '\n' ∈ text := (List.mem_cons.mp h).resolve_left (Ne.symm feed)
      obtain ⟨line, rest, rfl, within⟩ := ih later
      exact ⟨c :: line, rest, rfl, by simp [within, Ne.symm feed]⟩

theorem withoutReturn_subset (line : List Char) : withoutReturn line ⊆ line := by
  unfold withoutReturn
  split
  · exact List.dropLast_subset line
  · exact List.Subset.refl line

/-- No line has a line feed. -/
theorem feed_not_mem_of_mem_lines (text : List Char) : ∀ line ∈ lines text, '\n' ∉ line := by
  by_cases feed : '\n' ∈ text
  · obtain ⟨first, rest, rfl, within⟩ := exists_feed feed
    have shorter : rest.length < (first ++ '\n' :: rest).length := by simp; omega
    rw [lines_append_cons within, List.forall_mem_cons]
    exact ⟨fun member => within (withoutReturn_subset first member),
      feed_not_mem_of_mem_lines rest⟩
  · by_cases empty : text = []
    · simp [empty, lines]
    · simpa [lines_of_not_mem feed empty] using feed
termination_by text.length

/-- A position behind the first line feed of a text. -/
theorem past_append_cons {line : List Char} (h : '\n' ∉ line) (before : List Char) :
    Location.past (line ++ '\n' :: before) =
      ⟨(Location.past before).line + 1, (Location.past before).column⟩ := by
  rw [Location.past_append_feed, List.count_eq_zero_of_not_mem h]
  rfl

/-- A position in the first line of a text. -/
theorem past_of_not_mem {before : List Char} (h : '\n' ∉ before) :
    Location.past before = ⟨1, before.length + 1⟩ := by
  have stretch : before.reverse.takeWhile (· ≠ '\n') = before.reverse := by
    rw [List.takeWhile_eq_self_iff]
    intro c member
    have other : c ≠ '\n' := fun feed => h (by simpa [feed] using member)
    simpa using other
  rw [Location.past, stretch, List.count_eq_zero_of_not_mem h, List.length_reverse, Nat.add_zero,
    Nat.add_comm]

/-- A line further down in a text, counted from the first line feed on. -/
theorem getElem?_lines_append_cons {first : List Char} (h : '\n' ∉ first)
    (before rest : List Char) :
    (lines (first ++ '\n' :: rest))[(Location.past (first ++ '\n' :: before)).line - 1]? =
      (lines rest)[(Location.past before).line - 1]? := by
  rw [past_append_cons h, lines_append_cons h]
  simp only [Location.past, Nat.add_sub_cancel, Nat.add_sub_cancel_left]
  rw [Nat.add_comm]
  rfl

/-- The position in front of a character that belongs to no line end leads to it. -/
theorem exists_line_past (before : List Char) {c : Char} {after : List Char} (notFeed : c ≠ '\n')
    (notEnd : c ≠ '\r' ∨ after.head? ≠ some '\n') :
    ∃ row, (lines (before ++ c :: after))[(Location.past before).line - 1]? = some row ∧
      row[(Location.past before).column - 1]? = some c := by
  by_cases feed : '\n' ∈ before
  · obtain ⟨first, rest, rfl, within⟩ := exists_feed feed
    have shorter : rest.length < (first ++ '\n' :: rest).length := by simp; omega
    obtain ⟨line, found, column⟩ := exists_line_past rest notFeed notEnd
    refine ⟨line, ?_, ?_⟩
    · rw [List.append_assoc, List.cons_append, getElem?_lines_append_cons within]
      exact found
    · rw [past_append_cons within]
      exact column
  · rw [past_of_not_mem feed]
    by_cases more : '\n' ∈ after
    · obtain ⟨rest, later, rfl, within⟩ := exists_feed more
      have whole : before ++ c :: (rest ++ '\n' :: later) =
          (before ++ c :: rest) ++ '\n' :: later := by
        simp
      have first : '\n' ∉ before ++ c :: rest := by simp [feed, within, Ne.symm notFeed]
      have stays : c ≠ '\r' ∨ rest ≠ [] := by
        refine notEnd.imp_right fun front empty => front ?_
        rw [empty]
        rfl
      obtain ⟨left, same⟩ := exists_withoutReturn_append before stays
      refine ⟨before ++ c :: left, ?_, by simp⟩
      rw [whole, lines_append_cons first, same]
      rfl
    · have first : '\n' ∉ before ++ c :: after := by simp [feed, more, Ne.symm notFeed]
      refine ⟨before ++ c :: after, ?_, by simp⟩
      rw [lines_of_not_mem first (by simp)]
      rfl
termination_by before.length

theorem getLast?_append_cons (first : List Char) {rest : List Char} (notEmpty : rest ≠ []) :
    (first ++ '\n' :: rest).getLast? = rest.getLast? := by
  rcases List.eq_nil_or_concat rest with empty | ⟨more, c, rfl⟩
  · exact absurd empty notEmpty
  · rw [List.concat_eq_append, ← List.cons_append, ← List.append_assoc, List.getLast?_concat,
      List.getLast?_concat]

/-- The end of a text whose last line is not ended is one past the last character of that line. -/
theorem exists_line_past_end {text : List Char} (notEmpty : text ≠ [])
    (notEnded : text.getLast? ≠ some '\n') :
    (Location.past text).line = (lines text).length ∧
    ∃ line, (lines text)[(Location.past text).line - 1]? = some line ∧
      (Location.past text).column = line.length + 1 := by
  by_cases feed : '\n' ∈ text
  · obtain ⟨first, rest, rfl, within⟩ := exists_feed feed
    have shorter : rest.length < (first ++ '\n' :: rest).length := by simp; omega
    have goesOn : rest ≠ [] := by
      rintro rfl
      simp at notEnded
    have notEndedRest : rest.getLast? ≠ some '\n' := by
      rwa [getLast?_append_cons first goesOn] at notEnded
    obtain ⟨last, line, found, column⟩ := exists_line_past_end goesOn notEndedRest
    refine ⟨?_, line, ?_, ?_⟩
    · rw [past_append_cons within, lines_append_cons within, last]
      rfl
    · rw [getElem?_lines_append_cons within]
      exact found
    · rw [past_append_cons within]
      exact column
  · rw [past_of_not_mem feed, lines_of_not_mem feed notEmpty]
    exact ⟨rfl, text, rfl, rfl⟩
termination_by text.length

/-- The end of a text whose last line is ended is on a line that the text does not have. -/
theorem line_past_of_ended {text : List Char} (ended : ∀ c ∈ text.getLast?, c = '\n') :
    (Location.past text).line = (lines text).length + 1 := by
  by_cases feed : '\n' ∈ text
  · obtain ⟨first, rest, rfl, within⟩ := exists_feed feed
    have shorter : rest.length < (first ++ '\n' :: rest).length := by simp; omega
    have endedRest : ∀ c ∈ rest.getLast?, c = '\n' := by
      by_cases goesOn : rest = []
      · simp [goesOn]
      · rwa [getLast?_append_cons first goesOn] at ended
    rw [past_append_cons within, lines_append_cons within, line_past_of_ended endedRest]
    rfl
  · have empty : text = [] := by
      by_contra notEmpty
      have last := List.getLast?_eq_some_getLast notEmpty
      have member := List.getLast_mem notEmpty
      rw [ended _ last] at member
      exact feed member
    rw [empty]
    rfl
termination_by text.length

end Quill.Text
