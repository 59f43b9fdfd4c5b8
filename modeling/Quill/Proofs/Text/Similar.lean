import Quill.Proofs.Text.ByteOrder
import Quill.Text.Similar

/-!
The names that are offered for a name: of the candidates within its reach the nearest three, those
of one distance in the order of their bytes (`exists_ranked`). In which order the candidates are
given makes no difference (`similarNames_perm`).
-/
namespace Quill.Text

/-- A candidate that may be offered for a name. -/
def isNear (name candidate : String) : Bool :=
  decide (candidate ≠ "" ∧ candidate ≠ name ∧
    editDistance name.toList candidate.toList ≤ slips name)

/-- A candidate is nearer to a name than another one, or as near and not behind it in the order of
the bytes. -/
def NearerTo (name candidate other : String) : Prop :=
  editDistance name.toList candidate.toList < editDistance name.toList other.toList ∨
    editDistance name.toList candidate.toList = editDistance name.toList other.toList ∧
      bytes candidate ≤ bytes other

/-- The candidates that may be offered for a name, each as often as it is given and the nearest ones
first. -/
structure Ranked (name : String) (candidates ranked : List String) : Prop where
  perm : ranked.Perm (candidates.filter (isNear name))
  ordered : ranked.Pairwise (NearerTo name)

/-- A candidate with its distance. -/
def scored (name candidate : String) : Nat × String :=
  (editDistance name.toList candidate.toList, candidate)

/-- The distance is kept beside the candidate for sorting, and is a function of it. -/
theorem withinReach_eq (name : String) (candidates : List String) :
    withinReach name candidates = (candidates.filter (isNear name)).map (scored name) := by
  have near : ∀ candidate, (decide ((scored name candidate).1 ≤ slips name) &&
      (candidate ≠ "" && candidate ≠ name)) = isNear name candidate := by
    intro candidate
    rw [isNear, Bool.decide_and, Bool.decide_and, Bool.and_comm, Bool.and_assoc]
    rfl
  rw [withinReach, List.filter_map, List.filter_filter]
  exact congrArg (List.map _) (List.filter_congr fun candidate _ => near candidate)

section Order

variable {a b c : Nat × String}

theorem nearerOrEqual_iff : nearerOrEqual a b = true ↔ a.1 < b.1 ∨ a.1 = b.1 ∧ a.2 ≤ b.2 := by
  simp [nearerOrEqual]

theorem nearerOrEqual_trans (hab : nearerOrEqual a b = true) (hbc : nearerOrEqual b c = true) :
    nearerOrEqual a c = true := by
  rw [nearerOrEqual_iff] at hab hbc ⊢
  rcases hab with less | ⟨same, before⟩
  · rcases hbc with _ | ⟨_, _⟩ <;> exact .inl (by omega)
  · rcases hbc with less | ⟨again, behind⟩
    · exact .inl (by omega)
    · exact .inr ⟨same.trans again, String.le_trans before behind⟩

theorem nearerOrEqual_total (a b : Nat × String) :
    (nearerOrEqual a b || nearerOrEqual b a) = true := by
  rw [Bool.or_eq_true, nearerOrEqual_iff, nearerOrEqual_iff]
  rcases Nat.lt_trichotomy a.1 b.1 with less | same | more
  · exact .inl (.inl less)
  · exact (String.le_total a.2 b.2).imp (fun before => .inr ⟨same, before⟩)
      fun behind => .inr ⟨same.symm, behind⟩
  · exact .inr (.inl more)

/-- With this the order leaves no choice between candidates, so sorting does not depend on how they
came. -/
theorem nearerOrEqual_antisymm (hab : nearerOrEqual a b = true) (hba : nearerOrEqual b a = true) :
    a = b := by
  rw [nearerOrEqual_iff] at hab hba
  have distance : a.1 = b.1 := by omega
  have before : a.2 ≤ b.2 := by
    rcases hab with less | ⟨-, before⟩
    · omega
    · exact before
  have behind : b.2 ≤ a.2 := by
    rcases hba with less | ⟨-, behind⟩
    · omega
    · exact behind
  exact Prod.ext distance (String.le_antisymm before behind)

end Order

theorem nearerOrEqual_scored {name candidate other : String} :
    nearerOrEqual (scored name candidate) (scored name other) = true ↔
      NearerTo name candidate other := by
  rw [nearerOrEqual_iff, NearerTo, bytes_le_iff]
  rfl

/-- The order is transitive and total, and the sort needs no more. -/
theorem sorted_withinReach (name : String) (candidates : List String) :
    ((withinReach name candidates).mergeSort nearerOrEqual).Pairwise
      fun a b => nearerOrEqual a b = true :=
  @List.pairwise_mergeSort _ nearerOrEqual (fun _ _ _ => nearerOrEqual_trans) nearerOrEqual_total _

/-- The nearest three are taken off the front of the ranked candidates. -/
theorem exists_ranked (name : String) (candidates : List String) :
    ∃ ranked, Ranked name candidates ranked ∧ similarNames name candidates = ranked.take 3 := by
  have perm := List.mergeSort_perm (withinReach name candidates) nearerOrEqual
  rw [withinReach_eq] at perm
  refine ⟨((withinReach name candidates).mergeSort nearerOrEqual).map (·.2), ⟨?_, ?_⟩, ?_⟩
  · rw [withinReach_eq]
    have names := perm.map (·.2)
    rw [List.map_map] at names
    exact names.trans (.of_eq (List.map_id _))
  · refine List.pairwise_map.mpr ((sorted_withinReach name candidates).imp_of_mem ?_)
    intro a b ha hb before
    rw [withinReach_eq] at ha hb
    obtain ⟨candidate, -, rfl⟩ := List.mem_map.mp (perm.mem_iff.mp ha)
    obtain ⟨other, -, rfl⟩ := List.mem_map.mp (perm.mem_iff.mp hb)
    exact nearerOrEqual_scored.mp before
  · rw [similarNames, List.map_take]

/-- The order of the candidates makes no difference. -/
theorem similarNames_perm (name : String) {candidates others : List String}
    (same : candidates.Perm others) : similarNames name candidates = similarNames name others := by
  have reach : (withinReach name candidates).Perm (withinReach name others) := by
    rw [withinReach_eq, withinReach_eq]
    exact (same.filter _).map _
  have sorted : (withinReach name candidates).mergeSort nearerOrEqual =
      (withinReach name others).mergeSort nearerOrEqual :=
    List.Perm.eq_of_pairwise (fun a b _ _ => nearerOrEqual_antisymm)
      (sorted_withinReach name candidates) (sorted_withinReach name others)
      ((List.mergeSort_perm ..).trans (reach.trans (List.mergeSort_perm ..).symm))
  rw [similarNames, similarNames, sorted]

end Quill.Text
