import Mathlib.Algebra.Order.BigOperators.Group.List
import Mathlib.Algebra.Order.Ring.Nat

-- Sequences that are written one after another, with a separator after each of them

namespace Separated

variable {α : Type} {sep : α} {f g x y : List α} {fs gs : List (List α)}

def join (sep : α) (fs : List (List α)) : List α :=
  fs.flatMap (· ++ [sep])

@[simp]
theorem join_nil : join sep [] = [] := rfl

@[simp]
theorem join_cons : join sep (f :: fs) = f ++ sep :: join sep fs := by
  rw [join, List.flatMap_cons, List.append_assoc, List.singleton_append, join]

-- What comes before the first separator
theorem append_cons_inj (hf : sep ∉ f) (hg : sep ∉ g) (h : f ++ sep :: x = g ++ sep :: y) :
    f = g ∧ x = y := by
  rcases List.append_eq_append_iff.mp h with ⟨d, rfl, hd⟩ | ⟨d, rfl, hd⟩
  all_goals
    rcases List.cons_eq_append_iff.mp hd with ⟨rfl, hd⟩ | ⟨d, rfl, -⟩
    · cases hd
      exact ⟨by simp, rfl⟩
    · simp at hf hg

-- The last element is the separator.
theorem eq_nil_of_join_eq (hx : sep ∉ x) (h : join sep fs = y ++ x) : x = [] := by
  induction fs generalizing y
  case nil => exact (List.append_eq_nil_iff.mp h.symm).right
  case cons f fs hi =>
    rw [join_cons] at h
    rcases List.append_eq_append_iff.mp h with ⟨d, rfl, hd⟩ | ⟨d, rfl, rfl⟩
    · rcases List.cons_eq_append_iff.mp hd with ⟨rfl, rfl⟩ | ⟨d, rfl, hd⟩
      · simp at hx
      · exact hi (List.cons.inj hd).right
    · simp at hx

-- What comes after the last separator
theorem join_append_inj (hx : sep ∉ x) (hy : sep ∉ y) (h : join sep fs ++ x = join sep gs ++ y) :
    join sep fs = join sep gs ∧ x = y := by
  rcases List.append_eq_append_iff.mp h with ⟨d, hd, rfl⟩ | ⟨d, hd, rfl⟩
  · obtain rfl := eq_nil_of_join_eq (fun hm => hx (List.mem_append_left y hm)) hd
    exact ⟨by simp [hd], rfl⟩
  · obtain rfl := eq_nil_of_join_eq (fun hm => hy (List.mem_append_left x hm)) hd
    exact ⟨by simp [hd], rfl⟩

variable [DecidableEq α]

theorem count_join : (join sep fs).count sep = fs.length + (fs.map (·.count sep)).sum := by
  induction fs
  case nil => rfl
  case cons f fs hi =>
    rw [join_cons, List.count_append, List.count_cons_self, hi, List.length_cons, List.map_cons, List.sum_cons]
    omega

-- If the separator is in none of the sequences, no others, as many, are written the same way.
theorem join_inj (hf : ∀ f ∈ fs, sep ∉ f) (hl : gs.length = fs.length) (h : join sep gs = join sep fs) :
    gs = fs := by
  -- Their separators are counted.
  have hs : (fs.map (·.count sep)).sum = 0 :=
    List.sum_eq_zero (by simpa [List.count_eq_zero] using hf)
  have hc := congrArg (List.count sep) h
  rw [count_join, count_join, hs, hl, Nat.add_left_cancel_iff, List.sum_eq_zero_iff] at hc
  have hg : ∀ g ∈ gs, sep ∉ g := by simpa [List.count_eq_zero] using hc
  clear hc hs
  induction gs generalizing fs
  case nil => exact (List.length_eq_zero_iff.mp hl.symm).symm
  case cons g gs hi =>
    cases fs
    case nil => cases hl
    case cons f fs =>
      rw [join_cons, join_cons] at h
      rw [List.forall_mem_cons] at hf hg
      obtain ⟨he, ht⟩ := append_cons_inj hg.left hf.left h
      rw [he, hi hf.right (Nat.succ.inj hl) ht hg.right]

end Separated
