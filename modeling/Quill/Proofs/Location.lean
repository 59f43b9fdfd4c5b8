import Mathlib.Data.List.Count
import Quill.Location

/-!
Positions, read off the text in front of them at once and not character by character.
-/
namespace Quill.Location

/-- The position just past a text: a line for each line feed in it, and a column for each character
since the last line feed. -/
def past (before : List Char) : Location :=
  ⟨1 + before.count '\n', 1 + (before.reverse.takeWhile (· ≠ '\n')).length⟩

/-- Further up in a text, or further left in the same line. -/
def Precedes (a b : Location) : Prop :=
  a.line < b.line ∨ a.line = b.line ∧ a.column < b.column

theorem past_nil : past [] = start := rfl

theorem one_le_past (before : List Char) : 1 ≤ (past before).line ∧ 1 ≤ (past before).column :=
  ⟨Nat.le_add_right 1 _, Nat.le_add_right 1 _⟩

theorem past_concat (before : List Char) (c : Char) :
    past (before ++ [c]) = (past before).step c := by
  by_cases feed : c = '\n'
  · subst feed
    simp [past, step]
    omega
  · simp [past, step, feed]
    omega

theorem after_past (before text : List Char) :
    (past before).after text = past (before ++ text) := by
  induction text generalizing before with
  | nil => simp
  | cons c text ih =>
    rw [after_cons, ← past_concat, ih]
    simp

/-- A place some lines further down. -/
def down (lines : Nat) (here : Location) : Location := ⟨here.line + lines, here.column⟩

theorem step_down (lines : Nat) (here : Location) (c : Char) :
    (here.down lines).step c = (here.step c).down lines := by
  unfold step down
  split
  · exact congrArg (mk · 1) (Nat.add_right_comm here.line lines 1)
  · rfl

theorem after_down (lines : Nat) (here : Location) (text : List Char) :
    (here.down lines).after text = (here.after text).down lines := by
  induction text generalizing here with
  | nil => rfl
  | cons c text ih => rw [after_cons, after_cons, step_down, ih]

theorem past_concat_feed (text : List Char) :
    past (text ++ ['\n']) = start.down (text.count '\n' + 1) := by
  rw [past_concat, step, if_pos rfl, past, down, start, Nat.add_assoc]

/-- Behind a line feed, positions are those of a text of its own, further down. -/
theorem past_append_feed (text more : List Char) :
    past (text ++ '\n' :: more) = (past more).down (text.count '\n' + 1) := by
  rw [List.append_cons, ← after_past, past_concat_feed, after_down, ← past_nil, after_past,
    List.nil_append]

/-- Columns go on with the characters of a line. -/
theorem column_past (before : List Char) {line : List Char} (h : '\n' ∉ line) :
    (past (before ++ line)).column = (past before).column + line.length := by
  induction line generalizing before with
  | nil => simp
  | cons c line ih =>
    have other : c ≠ '\n' := fun feed => h (by simp [feed])
    have rest := ih (before ++ [c]) (fun member => h (List.mem_cons_of_mem _ member))
    rw [List.append_assoc, List.singleton_append] at rest
    rw [rest, past_concat, step, if_neg other, List.length_cons, Nat.add_right_comm, Nat.add_assoc]

theorem Precedes.trans {a b c : Location} (hab : a.Precedes b) (hbc : b.Precedes c) :
    a.Precedes c := by
  unfold Precedes at *
  omega

theorem precedes_step (here : Location) (c : Char) : here.Precedes (here.step c) := by
  unfold step
  split
  · exact .inl (Nat.lt_succ_self _)
  · exact .inr ⟨rfl, Nat.lt_succ_self _⟩

/-- More text leads further down. -/
theorem past_precedes (before : List Char) {more : List Char} (notEmpty : more ≠ []) :
    (past before).Precedes (past (before ++ more)) := by
  induction more generalizing before with
  | nil => exact absurd rfl notEmpty
  | cons c more ih =>
    have first := precedes_step (past before) c
    rw [← past_concat] at first
    by_cases last : more = []
    · rw [last]
      exact first
    · have rest := ih (before ++ [c]) last
      rw [List.append_assoc, List.singleton_append] at rest
      exact first.trans rest

end Quill.Location
