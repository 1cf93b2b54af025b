import Mathlib.Logic.Basic

-- A program that reacts to events. An event that cannot happen in a state has no step.
structure Machine (σ ε : Type) where
  Init : σ → Prop
  step : σ → ε → Option σ

namespace Machine

variable {σ ε : Type} {M : Machine σ ε} {Guard : σ → ε → Prop}

-- The states of the runs in which each step meets the guard in the state before it
inductive Run (M : Machine σ ε) (Guard : σ → ε → Prop) : σ → Prop
  | init {s : σ} (init : M.Init s) : Run M Guard s
  | step {s s' : σ} {e : ε} (run : Run M Guard s) (guard : Guard s e) (step : M.step s e = some s') :
    Run M Guard s'

theorem Run.invariant {Inv : σ → Prop} {s : σ} (h₀ : ∀ {s}, M.Init s → Inv s)
    (hs : ∀ {s e s'}, Inv s → Guard s e → M.step s e = some s' → Inv s') (run : Run M Guard s) :
    Inv s := by
  induction run
  case init h => exact h₀ h
  case step guard step hi => exact hs hi guard step

abbrev Reachable (M : Machine σ ε) : σ → Prop :=
  M.Run fun _ _ => True

-- The state after some events, if they can happen and meet the guard
def exec (M : Machine σ ε) (Guard : σ → ε → Prop) [∀ s e, Decidable (Guard s e)] :
    σ → List ε → Option σ
  | s, []      => some s
  | s, e :: tl => if Guard s e then M.step s e >>= (exec M Guard · tl) else none

theorem exec_cons [∀ s e, Decidable (Guard s e)] {s s' : σ} {e : ε} (es : List ε) (hg : Guard s e)
    (h : M.step s e = some s') : M.exec Guard s (e :: es) = M.exec Guard s' es := by
  rw [Machine.exec, if_pos hg, h]
  rfl

theorem Run.exec [∀ s e, Decidable (Guard s e)] {s s' : σ} (run : M.Run Guard s) (es : List ε)
    (h : M.exec Guard s es = some s') : M.Run Guard s' := by
  induction es generalizing s
  case nil => exact Option.some.inj h ▸ run
  case cons e es hi =>
    have ⟨hg, h⟩ := Option.ite_none_right_eq_some.mp h
    have ⟨s₁, hs, h⟩ := Option.bind_eq_some_iff.mp h
    exact hi (run.step hg hs) h

theorem Run.exec_any [∀ s e, Decidable (Guard s e)] {s : σ} {p : σ → Bool} (run : M.Run Guard s)
    (es : List ε) (h : (M.exec Guard s es).any p) : ∃ s', M.Run Guard s' ∧ p s' := by
  have ⟨s', hs, hp⟩ := (Option.any_eq_true ..).mp h
  exact ⟨s', run.exec es hs, hp⟩

-- An invariant of the states with the events that have led to them
theorem exec_history [∀ s e, Decidable (Guard s e)] {Inv : List ε → σ → Prop}
    (hs : ∀ {past s e s'}, Inv past s → Guard s e → M.step s e = some s' → Inv (past ++ [e]) s')
    {past : List ε} {s s' : σ} (h : Inv past s) (es : List ε) (he : M.exec Guard s es = some s') :
    Inv (past ++ es) s' := by
  induction es generalizing past s
  case nil =>
    rw [List.append_nil]
    exact Option.some.inj he ▸ h
  case cons e es hi =>
    obtain ⟨hg, he⟩ := Option.ite_none_right_eq_some.mp he
    obtain ⟨s₁, hs₁, he⟩ := Option.bind_eq_some_iff.mp he
    rw [List.append_cons]
    exact hi (hs h hg hs₁) he

-- An invariant with a number that each step lowers bounds the length of the runs.
theorem length_le_of_decreasing [∀ s e, Decidable (Guard s e)] {Inv : Nat → σ → Prop}
    (hs : ∀ {n s e s'}, Inv n s → M.step s e = some s' → ∃ n' < n, Inv n' s') {n : Nat} {s s' : σ}
    (h : Inv n s) (es : List ε) (he : M.exec Guard s es = some s') : es.length ≤ n := by
  induction es generalizing n s
  case nil => exact Nat.zero_le n
  case cons e es hi =>
    have ⟨_, he⟩ := Option.ite_none_right_eq_some.mp he
    have ⟨s₁, hs₁, he⟩ := Option.bind_eq_some_iff.mp he
    have ⟨n₁, hn, h₁⟩ := hs h hs₁
    exact Nat.lt_of_le_of_lt (hi h₁ he) hn

end Machine
