import Peerc.Lib.Refines

-- A program that changes a storage in steps, each of which happens as a whole or not at all. The
-- journal has the storage, and the steps that the program has made so far.
structure Journal (σ δ : Type) where
  storage : σ
  steps   : List δ := []

namespace Journal

variable {σ δ ε α : Type} (apply : σ → δ → σ)

def extend (j : Journal σ δ) (ds : List δ) : Journal σ δ where
  storage := ds.foldl apply j.storage
  steps   := j.steps ++ ds

def perform (d : δ) : EStateM ε (Journal σ δ) Unit :=
  modify (extend apply · [d])

def performAll : List δ → EStateM ε (Journal σ δ) Unit
  | []      => return
  | d :: ds => do
    perform apply d
    performAll ds

-- The steps of a program that starts on a storage
def stepsOf (x : EStateM ε (Journal σ δ) α) (s : σ) : List δ :=
  (x.run { storage := s }).state.steps

-- The storage that a program leaves, whether or not it raises
def after (x : EStateM ε (Journal σ δ) α) (s : σ) : σ :=
  (x.run { storage := s }).state.storage

-- The storage that a program leaves when it comes to its end after `n` steps, because the process
-- stops or because the next step raises
def interrupted (x : EStateM ε (Journal σ δ) α) (s : σ) (n : Nat) : σ :=
  ((stepsOf x s).take n).foldl apply s

variable {apply} {j : Journal σ δ} {s : σ} {x : EStateM ε (Journal σ δ) α}

@[simp]
theorem extend_nil : j.extend apply [] = j := by
  simp [extend]

@[simp]
theorem extend_extend (ds es : List δ) : (j.extend apply ds).extend apply es = j.extend apply (ds ++ es) := by
  simp [extend]

@[simp]
theorem run_perform (d : δ) : (perform apply d).run j = (.ok () (j.extend apply [d]) : EStateM.Result ε _ _) :=
  rfl

@[simp]
theorem run_performAll (ds : List δ) :
    (performAll apply ds).run j = (.ok () (j.extend apply ds) : EStateM.Result ε _ _) := by
  induction ds generalizing j
  case nil => simp [performAll]
  case cons d ds hi => simp [performAll, hi]

-- What a program with these steps leaves

variable {ds : List δ}

theorem stepsOf_eq (h : (x.run { storage := s }).state = extend apply { storage := s } ds) :
    stepsOf x s = ds := by
  simp [stepsOf, h, extend]

theorem after_eq (h : (x.run { storage := s }).state = extend apply { storage := s } ds) :
    after x s = ds.foldl apply s := by
  simp [after, h, extend]

theorem interrupted_eq (h : (x.run { storage := s }).state = extend apply { storage := s } ds) (n : Nat) :
    interrupted apply x s n = (ds.take n).foldl apply s := by
  rw [interrupted, stepsOf_eq h]

end Journal
