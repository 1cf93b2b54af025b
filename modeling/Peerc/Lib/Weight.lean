import Mathlib.Algebra.BigOperators.Group.Finset.Basic

-- The weight of finitely many things among arbitrarily many

variable {ι : Type} {w w' : ι → Nat} {n : Nat}

def Weighs (w : ι → Nat) (n : Nat) : Prop :=
  ∃ support : Finset ι, (∀ i ∉ support, w i = 0) ∧ ∑ i ∈ support, w i = n

namespace Weighs

theorem zero (h : ∀ i, w i = 0) : Weighs w 0 :=
  ⟨∅, fun i _ => h i, Finset.sum_empty⟩

-- The total changes by as much as a single weight does.
theorem change [DecidableEq ι] (h : Weighs w n) (i : ι) (hw : ∀ j ≠ i, w' j = w j) :
    ∃ n', Weighs w' n' ∧ n' + w i = n + w' i := by
  obtain ⟨support, hz, hn⟩ := h
  have hmem : i ∈ insert i support := Finset.mem_insert_self i support
  have htotal : ∑ j ∈ insert i support, w j = n := by
    rw [← hn]
    exact (Finset.sum_subset (Finset.subset_insert i support) fun j _ hj => hz j hj).symm
  have hrest : ∑ j ∈ (insert i support).erase i, w' j = ∑ j ∈ (insert i support).erase i, w j :=
    Finset.sum_congr rfl fun j hj => hw j (Finset.ne_of_mem_erase hj)
  refine ⟨_, ⟨insert i support, fun j hj => ?_, rfl⟩, ?_⟩
  · rw [Finset.mem_insert, not_or] at hj
    rw [hw j hj.left, hz j hj.right]
  · have hnew := Finset.add_sum_erase _ w' hmem
    have hold := Finset.add_sum_erase _ w hmem
    omega

theorem congr (h : Weighs w n) (hw : ∀ i, w' i = w i) : Weighs w' n :=
  (funext hw : w' = w) ▸ h

end Weighs
