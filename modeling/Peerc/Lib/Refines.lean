import Mathlib.Logic.Basic

-- A stateful program does the same as another one on a more abstract state.

theorem Except.bind_eq_ok {ε α β : Type} {x : Except ε α} {f : α → Except ε β} {b : β} :
    (x >>= f) = .ok b ↔ ∃ a, x = .ok a ∧ f a = .ok b := by
  cases x <;> simp [bind, Except.bind]

namespace EStateM

variable {ε σ τ α β : Type}

def Result.mapState (abs : σ → τ) : Result ε σ α → Result ε τ α
  | .ok a s    => .ok a (abs s)
  | .error e s => .error e (abs s)

-- The state in which a program ends, whether or not it raises
def Result.state : Result ε σ α → σ
  | .ok _ s | .error _ s => s

def Result.error? : Result ε σ α → Option ε
  | .ok ..      => none
  | .error e _  => some e

def Result.value? : Result ε σ α → Option α
  | .ok a _    => some a
  | .error ..  => none

theorem run'_eq (x : EStateM ε σ α) (s : σ) : x.run' s = (x.run s).value? :=
  rfl

@[simp]
theorem state_discard (x : EStateM ε σ α) (s : σ) : ((discard x).run s).state = (x.run s).state := by
  change ((x.map fun _ => ()).run s).state = _
  rw [EStateM.run, EStateM.map, EStateM.run]
  cases x s <;> rfl

theorem run_discard {x : EStateM ε σ α} {a : α} {s s' : σ} (h : x.run s = .ok a s') :
    (discard x).run s = .ok () s' := by
  change (x.map fun _ => ()).run s = _
  rw [EStateM.run, EStateM.map, show x s = .ok a s' from h]

theorem mapState_discard {abs : σ → τ} {x : EStateM ε σ α} {y : EStateM ε τ α} {s : σ}
    (h : y.run (abs s) = (x.run s).mapState abs) :
    (discard y).run (abs s) = ((discard x).run s).mapState abs := by
  change (y.map fun _ => ()).run (abs s) = ((x.map fun _ => ()).run s).mapState abs
  change y (abs s) = (x s).mapState abs at h
  rw [EStateM.run, EStateM.map, h, EStateM.run, EStateM.map]
  cases x s <;> rfl

-- A computation without a state leaves the state as it is.
instance liftExcept : MonadLift (Except ε) (EStateM ε σ) where
  monadLift x s :=
    match x with
    | .ok a    => .ok a s
    | .error e => .error e s

@[simp]
theorem run_liftM_ok (a : α) (s : σ) : (liftM (Except.ok a : Except ε α) : EStateM ε σ α).run s = .ok a s :=
  rfl

section

variable {x : EStateM ε σ α} {handler : ε → EStateM ε σ α} {s s' : σ}

theorem run_tryCatch_ok {a : α} (h : x.run s = .ok a s') : (tryCatch x handler).run s = .ok a s' := by
  change EStateM.tryCatch x handler s = _
  delta EStateM.tryCatch
  rw [show x s = .ok a s' from h]

theorem run_tryCatch_error {e : ε} (h : x.run s = .error e s') :
    (tryCatch x handler).run s = (handler e).run s' := by
  change EStateM.tryCatch x handler s = _
  delta EStateM.tryCatch
  rw [show x s = .error e s' from h]
  rfl

end

def Refines (abs : σ → τ) (x : EStateM ε σ α) (y : EStateM ε τ α) : Prop :=
  ∀ s, y.run (abs s) = (x.run s).mapState abs

namespace Refines

variable {abs : σ → τ} {x : EStateM ε σ α} {y : EStateM ε τ α}

theorem pure (a : α) : Refines (ε := ε) abs (Pure.pure a) (Pure.pure a) :=
  fun _ => rfl

theorem throw (e : ε) : Refines abs (MonadExcept.throw e : EStateM ε σ α) (MonadExcept.throw e) :=
  fun _ => rfl

theorem bind {f : α → EStateM ε σ β} {g : α → EStateM ε τ β} (h : Refines abs x y)
    (hf : ∀ a, Refines abs (f a) (g a)) : Refines abs (x >>= f) (y >>= g) := by
  intro s
  rw [run_bind, run_bind, h s]
  cases hx : x.run s
  case ok a s' => exact hf a s'
  case error e s' => rfl

theorem tryCatch {f : ε → EStateM ε σ α} {g : ε → EStateM ε τ α} (h : Refines abs x y)
    (hf : ∀ e, Refines abs (f e) (g e)) : Refines abs (MonadExcept.tryCatch x f) (MonadExcept.tryCatch y g) := by
  intro s
  have hy := h s
  cases hx : x.run s
  case ok a s' =>
    rw [hx] at hy
    rw [run_tryCatch_ok hx, run_tryCatch_ok hy]
    rfl
  case error e s' =>
    rw [hx] at hy
    rw [run_tryCatch_error hx, run_tryCatch_error hy]
    exact hf e s'

theorem of_ok {s : σ} {t : τ} {a : α} (h : Refines abs x y) (hy : y.run (abs s) = .ok a t) :
    ∃ s', x.run s = .ok a s' ∧ abs s' = t := by
  rw [h s] at hy
  cases hx : x.run s <;> rw [hx] at hy <;> cases hy
  exact ⟨_, rfl, rfl⟩

theorem ok {s s' : σ} {a : α} (h : Refines abs x y) (hx : x.run s = .ok a s') :
    y.run (abs s) = .ok a (abs s') := by
  rw [h s, hx]
  rfl

end Refines
end EStateM
