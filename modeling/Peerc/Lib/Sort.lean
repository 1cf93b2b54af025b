import Mathlib.Data.List.Chain
import Mathlib.Data.List.Sort

-- Sorting by a key. The sort is stable, so elements with the same key come out in the order in which
-- they went in.

namespace SortByKey

variable {α κ : Type} [LinearOrder κ] {key : α → κ} {l order : List α}

abbrev Le (key : α → κ) (a b : α) : Prop :=
  key a ≤ key b

instance total : Std.Total (Le key) :=
  ⟨fun a b => le_total (key a) (key b)⟩

instance isTrans : IsTrans α (Le key) :=
  ⟨fun _ _ _ => le_trans⟩

theorem eq_of_key_eq {a b : α} (h : l.Pairwise (key · < key ·)) (ha : a ∈ l) (hb : b ∈ l)
    (he : key a = key b) : a = b := by
  by_contra hne
  have hs : Std.Symm fun a b : α => key a ≠ key b := ⟨fun _ _ => Ne.symm⟩
  exact (h.imp fun h => h.ne).forall ha hb hne he

-- With different keys there is only one result.
theorem insertionSort_eq (h : l.Pairwise (key · < key ·)) (hp : order.Perm l) :
    order.insertionSort (Le key) = l := by
  have hp : (order.insertionSort (Le key)).Perm l := (List.perm_insertionSort _ _).trans hp
  have hs : (order.insertionSort (Le key)).Pairwise (Le key) := List.pairwise_insertionSort _ _
  have hl : l.Pairwise (Le key) := h.imp fun h => h.le
  refine hp.eq_of_pairwise (fun a b ha hb hab hba => ?_) hs hl
  exact eq_of_key_eq h (hp.mem_iff.mp ha) hb (le_antisymm hab hba)

-- Two neighbors with the same key can be exchanged.
theorem pairwise_exchange {a b : α} {l₁ l₂ : List α} (h : (l₁ ++ a :: b :: l₂).Pairwise (Le key))
    (he : key a = key b) : (l₁ ++ b :: a :: l₂).Pairwise (Le key) := by
  simp only [List.pairwise_append, List.pairwise_cons, List.mem_cons] at h ⊢
  grind

-- The result does not depend on the order of the elements iff their keys are different.
theorem insertionSort_eq_iff (hn : l.Nodup) :
    (∀ order : List α, order.Perm l → order.insertionSort (Le key) = l) ↔
      l.IsChain (key · < key ·) := by
  constructor
  · intro h
    have hs : l.Pairwise (Le key) := h l (.refl l) ▸ List.pairwise_insertionSort _ _
    refine List.isChain_iff_forall_rel_of_append_cons_cons.mpr fun a b l₁ l₂ hl => ?_
    subst hl
    have hab : key a ≤ key b := by
      simp only [List.pairwise_append, List.pairwise_cons, List.mem_cons] at hs
      exact hs.right.left.left b (.inl rfl)
    refine hab.lt_of_ne fun he => ?_
    have hx := h (l₁ ++ b :: a :: l₂) (.append_left _ (.swap a b l₂))
    rw [(pairwise_exchange hs he).insertionSort_eq] at hx
    have hba : b = a := (List.cons.inj (List.append_cancel_left hx)).left
    have ha := (List.nodup_cons.mp (List.nodup_append.mp hn).right.left).left
    exact ha (hba ▸ List.mem_cons_self)
  · intro h order hp
    have ht : Trans (fun a b : α => key a < key b) (key · < key ·) (key · < key ·) := ⟨lt_trans⟩
    exact insertionSort_eq (List.isChain_iff_pairwise.mp h) hp

end SortByKey
