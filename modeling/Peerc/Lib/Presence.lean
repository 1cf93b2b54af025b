import Mathlib.Data.List.Chain

-- Who is present, and a log of the arrivals and departures

namespace Presence

inductive Change
  | arrived
  | departed
  deriving DecidableEq

variable {α : Type} [DecidableEq α] {log : List (α × Change)} {cs : List Change} {a b : α} {c : Change}

-- What the log says about one member
def changes (log : List (α × Change)) (a : α) : List Change :=
  (log.filter (·.fst = a)).map (·.snd)

theorem changes_append_self : changes (log ++ [(a, c)]) a = changes log a ++ [c] := by
  simp [changes]

theorem changes_append_ne (h : b ≠ a) : changes (log ++ [(a, c)]) b = changes log b := by
  simp [changes, h.symm]

-- An arrival, a departure, an arrival, and so on
structure Alternating (cs : List Change) : Prop where
  first : ∀ c ∈ cs.head?, c = .arrived
  turns : cs.IsChain (· ≠ ·)

namespace Alternating

theorem nil : Alternating [] :=
  ⟨nofun, .nil⟩

theorem append (h : Alternating cs) (hc : ∀ c' ∈ cs.getLast?, c' ≠ c) (hn : cs = [] → c = .arrived) :
    Alternating (cs ++ [c]) where
  first := by
    cases cs
    case nil => simpa using hn rfl
    case cons => simpa using h.first
  turns := by
    refine List.isChain_append.mpr ⟨h.turns, .singleton _, fun c' hc' d hd => ?_⟩
    obtain rfl : c = d := by simpa using hd
    exact hc c' hc'

theorem append_arrived (h : Alternating cs) (hl : cs.getLast? ≠ some .arrived) :
    Alternating (cs ++ [.arrived]) :=
  h.append (fun _ hc he => hl (he ▸ hc)) fun _ => rfl

theorem append_departed (h : Alternating cs) (hl : cs.getLast? = some .arrived) :
    Alternating (cs ++ [.departed]) := by
  refine h.append (fun c hc he => ?_) fun hn => ?_
  · rw [hl, he] at hc
    cases hc
  · rw [hn] at hl
    cases hl

end Alternating

-- The log fits to who is present now.
structure Consistent (present : α → Prop) (log : List (α × Change)) : Prop where
  alternating : ∀ a, Alternating (changes log a)
  present_iff : ∀ a, present a ↔ (changes log a).getLast? = some .arrived

namespace Consistent

variable {present present' : α → Prop}

theorem init (h : ∀ a, ¬present a) : Consistent present [] where
  alternating _ := .nil
  present_iff a := ⟨fun hp => absurd hp (h a), nofun⟩

-- One member changes, and the others do not.
theorem change (h : Consistent present log) (ha : Alternating (changes log a ++ [c]))
    (hp : present' a ↔ c = .arrived) (ho : ∀ b ≠ a, present' b ↔ present b) :
    Consistent present' (log ++ [(a, c)]) where
  alternating b := by
    by_cases hb : b = a
    case pos => rwa [hb, changes_append_self]
    case neg => rw [changes_append_ne hb]; exact h.alternating b
  present_iff b := by
    by_cases hb : b = a
    case pos => rw [hb, changes_append_self, List.getLast?_concat, hp, Option.some.injEq]
    case neg => rw [changes_append_ne hb, ho b hb, h.present_iff b]

theorem arrive (h : Consistent present log) (ha : ¬present a) (hp : present' a)
    (ho : ∀ b ≠ a, present' b ↔ present b) : Consistent present' (log ++ [(a, .arrived)]) := by
  refine h.change ((h.alternating a).append_arrived fun hl => ?_) (iff_of_true hp rfl) ho
  exact ha ((h.present_iff a).mpr hl)

theorem depart (h : Consistent present log) (ha : present a) (hp : ¬present' a)
    (ho : ∀ b ≠ a, present' b ↔ present b) : Consistent present' (log ++ [(a, .departed)]) := by
  refine h.change ((h.alternating a).append_departed ?_) (iff_of_false hp nofun) ho
  exact (h.present_iff a).mp ha

theorem congr (h : Consistent present log) (hp : ∀ a, present' a ↔ present a) :
    Consistent present' log where
  alternating   := h.alternating
  present_iff a := (hp a).trans (h.present_iff a)

end Consistent

end Presence
