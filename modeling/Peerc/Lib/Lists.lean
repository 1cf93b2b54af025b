import Mathlib.Data.List.Forall2

namespace List

variable {α β : Type}

theorem Forall₂.exists_of_mem {R : α → β → Prop} {l : List α} {l' : List β} {a : α} (h : Forall₂ R l l')
    (ha : a ∈ l) : ∃ b ∈ l', R a b := by
  induction h
  case nil => cases ha
  case cons hr _ hi =>
    obtain rfl | ha := mem_cons.mp ha
    · exact ⟨_, mem_cons_self, hr⟩
    · obtain ⟨b', hb', hr'⟩ := hi ha
      exact ⟨b', mem_cons_of_mem _ hb', hr'⟩

theorem filter_map_sublist {l : List α} {f : α → α} {p : α → Bool} {g : α → β}
    (hg : ∀ a, g (f a) = g a) (hp : ∀ a ∈ l, p (f a) → p a) :
    (((l.map f).filter p).map g).Sublist ((l.filter p).map g) := by
  induction l
  case nil => exact .slnil
  case cons a l hi =>
    have hl := hi fun b hb => hp b (mem_cons_of_mem a hb)
    have ha := hp a mem_cons_self
    rw [map_cons, filter_cons, filter_cons]
    by_cases hf : p (f a)
    case pos =>
      rw [if_pos hf, if_pos (ha hf), map_cons, map_cons, hg]
      exact hl.cons_cons (g a)
    case neg =>
      rw [if_neg hf]
      split
      · exact hl.cons (g a)
      · exact hl

end List
