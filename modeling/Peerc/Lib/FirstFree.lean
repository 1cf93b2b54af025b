import Mathlib.Data.Finset.Card

-- The search for the first of numbered candidates that is free

variable {α : Type} {taken : α → Bool} {path : Nat → α} {fuel counter : Nat} {p : α}

def firstFree (taken : α → Bool) (path : Nat → α) : (fuel counter : Nat) → Option α
  | 0,        _       => none
  | fuel + 1, counter =>
    if taken (path counter) then firstFree taken path fuel (counter + 1) else some (path counter)

namespace firstFree

theorem eq_some (h : firstFree taken path fuel counter = some p) :
    taken p = false ∧ ∃ i, p = path i ∧ ∀ j, counter ≤ j → j < i → taken (path j) := by
  induction fuel generalizing counter
  case zero => cases h
  case succ fuel hi =>
    unfold firstFree at h
    split at h
    case isTrue ht =>
      obtain ⟨hf, i, hp, hj⟩ := hi h
      refine ⟨hf, i, hp, fun j hle hlt => ?_⟩
      rcases Nat.eq_or_lt_of_le hle with rfl | hle
      · exact ht
      · exact hj j hle hlt
    case isFalse hf =>
      cases h
      exact ⟨Bool.eq_false_iff.mpr hf, counter, rfl, fun j hle hlt => absurd hle (Nat.not_le.mpr hlt)⟩

theorem eq_none (h : firstFree taken path fuel counter = none) : ∀ i < fuel, taken (path (counter + i)) := by
  induction fuel generalizing counter
  case zero => exact nofun
  case succ fuel hi =>
    unfold firstFree at h
    split at h
    case isFalse => cases h
    case isTrue ht =>
      intro i hl
      cases i
      case zero => exact ht
      case succ i =>
        have := hi h i (Nat.lt_of_succ_lt_succ hl)
        rwa [Nat.add_right_comm] at this

-- A candidate is taken if its name is there, or another name that belongs to it. Then more candidates than the
-- names can take are not all taken.
theorem isSome [DecidableEq α] {names : List α} {other : α → α} (hp : Function.Injective path)
    (ho : Function.Injective other) (ht : ∀ p, taken p → p ∈ names ∨ other p ∈ names) :
    (firstFree taken path (2 * names.length + 1) 0).isSome := by
  by_contra hn
  have htaken := eq_none (Option.not_isSome_iff_eq_none.mp hn)
  simp only [Nat.zero_add] at htaken
  let own   := (Finset.range (2 * names.length + 1)).filter fun i => path i ∈ names
  let stage := (Finset.range (2 * names.length + 1)).filter fun i => other (path i) ∈ names
  have hown : own.card ≤ names.length := by
    refine (Finset.card_le_card_of_injOn path (fun i hi => ?_) hp.injOn).trans names.toFinset_card_le
    exact List.mem_toFinset.mpr (Finset.mem_filter.mp hi).right
  have hstage : stage.card ≤ names.length := by
    refine (Finset.card_le_card_of_injOn _ (fun i hi => ?_) (ho.comp hp).injOn).trans names.toFinset_card_le
    exact List.mem_toFinset.mpr (Finset.mem_filter.mp hi).right
  have hall : Finset.range (2 * names.length + 1) ⊆ own ∪ stage := by
    intro i hi
    exact Finset.mem_union.mpr <| (ht _ (htaken i (Finset.mem_range.mp hi))).imp
      (fun h => Finset.mem_filter.mpr ⟨hi, h⟩) (fun h => Finset.mem_filter.mpr ⟨hi, h⟩)
  have hc := (Finset.card_le_card hall).trans (Finset.card_union_le own stage)
  rw [Finset.card_range] at hc
  omega

end firstFree
