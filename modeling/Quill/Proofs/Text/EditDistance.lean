import Mathlib.Data.List.Forall2
import Mathlib.Order.Bounds.Defs
import Quill.Text.EditDistance

/-!
The edit distance is the least number of edits, where an edit inserts, deletes or replaces one
character anywhere in a text (`editDistance_isLeast`). Edits that follow each other are put into the
form of an alignment first, in which both texts are gone through once from left to right: an edit in
front of an alignment takes at most one step more (`Edit.aligns`), and the rows of distances hold
the least alignments.
-/
namespace Quill.Text

/-- One character of a text is inserted, deleted or replaced. -/
inductive Edit : List Char → List Char → Prop
  | insert (front : List Char) (c : Char) (back : List Char) :
      Edit (front ++ back) (front ++ c :: back)
  | delete (front : List Char) (c : Char) (back : List Char) :
      Edit (front ++ c :: back) (front ++ back)
  | replace (front : List Char) (c d : Char) (back : List Char) :
      Edit (front ++ c :: back) (front ++ d :: back)

/-- A number of edits, one after the other. -/
inductive Edits : Nat → List Char → List Char → Prop
  | none (text : List Char) : Edits 0 text text
  | more {n : Nat} {text mid target : List Char} (first : Edit text mid)
      (others : Edits n mid target) : Edits (n + 1) text target

/-- A way through two texts from left to right, with the number of characters that are not kept. -/
inductive Aligns : Nat → List Char → List Char → Prop
  | nil : Aligns 0 [] []
  | keep {n : Nat} {c : Char} {text target : List Char} (h : Aligns n text target) :
      Aligns n (c :: text) (c :: target)
  | replace {n : Nat} {c d : Char} {text target : List Char} (h : Aligns n text target) :
      Aligns (n + 1) (c :: text) (d :: target)
  | delete {n : Nat} {c : Char} {text target : List Char} (h : Aligns n text target) :
      Aligns (n + 1) (c :: text) target
  | insert {n : Nat} {d : Char} {text target : List Char} (h : Aligns n text target) :
      Aligns (n + 1) text (d :: target)

theorem Edit.cons (c : Char) {text target : List Char} (h : Edit text target) :
    Edit (c :: text) (c :: target) := by
  cases h with
  | insert front d back => exact .insert (c :: front) d back
  | delete front d back => exact .delete (c :: front) d back
  | replace front d e back => exact .replace (c :: front) d e back

theorem Edits.cons (c : Char) {n : Nat} {text target : List Char} (h : Edits n text target) :
    Edits n (c :: text) (c :: target) := by
  induction h with
  | none text => exact .none (c :: text)
  | more first _ ih => exact .more (first.cons c) ih

namespace Aligns

variable {n : Nat} {c : Char} {text target : List Char}

theorem edits (h : Aligns n text target) : Edits n text target := by
  induction h with
  | nil => exact .none []
  | keep _ ih => exact ih.cons _
  | @replace _ c d text _ _ ih => exact .more (.replace [] c d text) (ih.cons d)
  | @delete _ c text _ _ ih => exact .more (.delete [] c text) ih
  | @insert _ d text _ _ ih => exact .more (.insert [] d text) (ih.cons d)

theorem refl (text : List Char) : Aligns 0 text text := by
  induction text with
  | nil => exact .nil
  | cons c text ih => exact ih.keep

theorem symm (h : Aligns n text target) : Aligns n target text := by
  induction h with
  | nil => exact .nil
  | keep _ ih => exact ih.keep
  | replace _ ih => exact ih.replace
  | delete _ ih => exact ih.insert
  | insert _ ih => exact ih.delete

/-- An alignment of one character more on the left. -/
theorem exists_tail (h : Aligns n (c :: text) target) : ∃ m ≤ n + 1, Aligns m text target := by
  generalize whole : c :: text = longer at h
  induction h with
  | nil => cases whole
  | @keep n c _ _ h =>
    cases whole
    exact ⟨n + 1, Nat.le_refl _, h.insert⟩
  | @replace n _ _ _ _ h =>
    cases whole
    exact ⟨n + 1, by omega, h.insert⟩
  | @delete n _ _ _ h =>
    cases whole
    exact ⟨n, by omega, h⟩
  | @insert n d _ _ _ ih =>
    obtain ⟨m, bound, aligned⟩ := ih whole
    exact ⟨m + 1, by omega, aligned.insert⟩

/-- An alignment of a text with another first character. -/
theorem exists_replaced (d : Char) (h : Aligns n (c :: text) target) :
    ∃ m ≤ n + 1, Aligns m (d :: text) target := by
  generalize whole : c :: text = other at h
  induction h with
  | nil => cases whole
  | @keep n _ _ _ h =>
    cases whole
    exact ⟨n + 1, Nat.le_refl _, h.replace⟩
  | @replace n _ _ _ _ h =>
    cases whole
    exact ⟨n + 1, by omega, h.replace⟩
  | @delete n _ _ _ h =>
    cases whole
    exact ⟨n + 1, by omega, h.delete⟩
  | @insert n _ _ _ _ ih =>
    obtain ⟨m, bound, aligned⟩ := ih whole
    exact ⟨m + 1, by omega, aligned.insert⟩

/-- What can be done to the alignments of a text can be done behind one more character. -/
theorem exists_cons {other : List Char}
    (onTail : ∀ n target, Aligns n text target → ∃ m ≤ n + 1, Aligns m other target)
    (h : Aligns n (c :: text) target) : ∃ m ≤ n + 1, Aligns m (c :: other) target := by
  generalize whole : c :: text = longer at h
  induction h with
  | nil => cases whole
  | keep h =>
    cases whole
    obtain ⟨m, bound, aligned⟩ := onTail _ _ h
    exact ⟨m, bound, aligned.keep⟩
  | replace h =>
    cases whole
    obtain ⟨m, bound, aligned⟩ := onTail _ _ h
    exact ⟨m + 1, by omega, aligned.replace⟩
  | delete h =>
    cases whole
    obtain ⟨m, bound, aligned⟩ := onTail _ _ h
    exact ⟨m + 1, by omega, aligned.delete⟩
  | insert _ ih =>
    obtain ⟨m, bound, aligned⟩ := ih whole
    exact ⟨m + 1, by omega, aligned.insert⟩

/-- An alignment of two texts that start with the same character: keeping it is best. -/
theorem exists_of_keep (h : Aligns n (c :: text) (c :: target)) :
    ∃ m ≤ n, Aligns m text target := by
  cases h with
  | keep h => exact ⟨n, Nat.le_refl n, h⟩
  | replace h => exact ⟨_, Nat.le_succ _, h⟩
  | delete h =>
    obtain ⟨m, bound, aligned⟩ := h.symm.exists_tail
    exact ⟨m, bound, aligned.symm⟩
  | insert h => exact h.exists_tail

end Aligns

/-- An edit in front of an alignment. -/
theorem Edit.aligns {text mid : List Char} (first : Edit text mid) :
    ∀ n target, Aligns n mid target → ∃ m ≤ n + 1, Aligns m text target := by
  have behind : ∀ (front before after : List Char),
      (∀ n target, Aligns n after target → ∃ m ≤ n + 1, Aligns m before target) →
      ∀ n target, Aligns n (front ++ after) target →
        ∃ m ≤ n + 1, Aligns m (front ++ before) target := by
    intro front before after base
    induction front with
    | nil => exact base
    | cons c front ih => exact fun n target h => h.exists_cons ih
  cases first with
  | insert front c back => exact behind front back (c :: back) fun n target h => h.exists_tail
  | delete front c back =>
    exact behind front (c :: back) back fun n target h => ⟨n + 1, Nat.le_refl _, h.delete⟩
  | replace front c d back =>
    exact behind front (c :: back) (d :: back) fun n target h => h.exists_replaced c

theorem Edits.exists_aligns {n : Nat} {text target : List Char} (h : Edits n text target) :
    ∃ m ≤ n, Aligns m text target := by
  induction h with
  | none text => exact ⟨0, Nat.le_refl 0, .refl text⟩
  | more first _ ih =>
    obtain ⟨m, bound, aligned⟩ := ih
    obtain ⟨k, one, whole⟩ := first.aligns m _ aligned
    exact ⟨k, by omega, whole⟩

/-- The number of characters that are not kept in the best alignment. -/
structure Distance (n : Nat) (text target : List Char) : Prop where
  reached : Aligns n text target
  least : ∀ m, Aligns m text target → n ≤ m

namespace Distance

variable {n : Nat} {c d : Char} {text target : List Char}

theorem nil_left (target : List Char) : Distance target.length [] target := by
  induction target with
  | nil => exact ⟨.nil, fun m _ => Nat.zero_le m⟩
  | cons d target ih =>
    refine ⟨ih.reached.insert, fun m h => ?_⟩
    cases h with
    | insert h => exact Nat.succ_le_succ (ih.least _ h)

theorem nil_right (h : Distance n text []) : Distance (n + 1) (c :: text) [] := by
  refine ⟨h.reached.delete, fun m other => ?_⟩
  cases other with
  | delete other => exact Nat.succ_le_succ (h.least _ other)

theorem keep (h : Distance n text target) : Distance n (c :: text) (c :: target) := by
  refine ⟨h.reached.keep, fun m other => ?_⟩
  obtain ⟨k, bound, aligned⟩ := other.exists_of_keep
  exact Nat.le_trans (h.least k aligned) bound

theorem differ {deleted inserted replaced : Nat} (differ : c ≠ d)
    (hdeleted : Distance deleted text (d :: target))
    (hinserted : Distance inserted (c :: text) target)
    (hreplaced : Distance replaced text target) :
    Distance (min deleted (min inserted replaced) + 1) (c :: text) (d :: target) := by
  constructor
  case reached =>
    rcases Nat.le_total deleted (min inserted replaced) with least | least
    · rw [Nat.min_eq_left least]
      exact hdeleted.reached.delete
    rw [Nat.min_eq_right least]
    rcases Nat.le_total inserted replaced with least | least
    · rw [Nat.min_eq_left least]
      exact hinserted.reached.insert
    · rw [Nat.min_eq_right least]
      exact hreplaced.reached.replace
  case least =>
    intro m other
    cases other with
    | keep => exact absurd rfl differ
    | replace other =>
      have bound := hreplaced.least _ other
      omega
    | delete other =>
      have bound := hdeleted.least _ other
      omega
    | insert other =>
      have bound := hinserted.least _ other
      omega

end Distance

/-- The distances from a text to the target and to each of its ends. -/
def DistanceRow (text target : List Char) (row : List Nat) : Prop :=
  List.Forall₂ (fun n back => Distance n text back) row target.tails

theorem emptyRow_distances (target : List Char) : DistanceRow [] target (emptyRow target) := by
  induction target with
  | nil => exact .cons (.nil_left []) .nil
  | cons d target ih => exact .cons (.nil_left (d :: target)) ih

/-- The distance to a target stands at the front of its row. -/
theorem DistanceRow.exists_cons {text target : List Char} {row : List Nat}
    (h : DistanceRow text target row) :
    ∃ n rest, row = n :: rest ∧ Distance n text target := by
  cases target <;> cases h with
  | cons first rest => exact ⟨_, _, rfl, first⟩

theorem nextRow_distances (c : Char) {text target : List Char} {row : List Nat}
    (h : DistanceRow text target row) : DistanceRow (c :: text) target (nextRow c target row) := by
  induction target generalizing row with
  | nil =>
    obtain ⟨n, rest, rfl, first⟩ := h.exists_cons
    exact .cons first.nil_right .nil
  | cons d target ih =>
    cases h with
    | @cons deleted _ rest _ hdeleted others =>
      have shorter := ih others
      obtain ⟨inserted, more, sameRow, hinserted⟩ := shorter.exists_cons
      obtain ⟨replaced, rest, rfl, hreplaced⟩ := DistanceRow.exists_cons others
      refine .cons ?_ shorter
      rw [List.tail_cons, sameRow]
      simp only [List.headD_cons]
      split
      · next same =>
        subst same
        exact hreplaced.keep
      · next other => exact .differ other hdeleted hinserted hreplaced

theorem foldr_distances (text target : List Char) :
    DistanceRow text target (text.foldr (nextRow · target) (emptyRow target)) := by
  induction text with
  | nil => exact emptyRow_distances target
  | cons c text ih => exact nextRow_distances c ih

/-- The edit distance of two texts is the least number of characters to insert, delete and replace,
one after the other, to get from one to the other. -/
theorem editDistance_isLeast (text target : List Char) :
    IsLeast {n | Edits n text target} (editDistance text target) := by
  obtain ⟨n, rest, row, distance⟩ := (foldr_distances text target).exists_cons
  have same : editDistance text target = n := by
    rw [editDistance, row]
    rfl
  rw [same]
  refine ⟨distance.reached.edits, fun m edits => ?_⟩
  obtain ⟨k, bound, aligned⟩ := edits.exists_aligns
  exact Nat.le_trans (distance.least k aligned) bound

end Quill.Text
