import Mathlib.Data.List.Perm.Subperm
import Peerc.Peer.Theorems.Ownership

-- How many connections are open at once

namespace ManagerState

variable {s s' : ManagerState} {e : ManagerEvent} {addrKey : Str}

-- A connection is registered when none with its address is winding down, no send has failed on one that runs,
-- and the table is not full, which only an incoming connection asks at that moment.
def Admits (s : ManagerState) (addrKey : Str) : Prop :=
  (∀ c ∈ s.running ++ s.draining, c.addrKey ≠ addrKey) ∧ ∀ c ∈ s.running, c ∉ s.failed

def Counted (s : ManagerState) : ManagerEvent → Prop
  | .incoming addrKey => s.isFull ∨ s.Admits addrKey
  | .opened addrKey   => ¬s.isFull ∧ s.Admits addrKey
  | _                 => True

instance decidableAdmits : Decidable (s.Admits addrKey) :=
  inferInstanceAs (Decidable (_ ∧ _))

instance decidableCounted : (e : ManagerEvent) → Decidable (s.Counted e)
  | .incoming _ => inferInstanceAs (Decidable (_ ∨ _))
  | .opened _   => inferInstanceAs (Decidable (_ ∧ _))
  | .connectTo _ | .notOpened _ | .loopEnds _ | .send _ | .drained _ | .drainFails _ => isTrue trivial

theorem Counted.unshared (h : s.Counted e) : s.Unshared e := by
  cases e
  case incoming => exact h.imp_right And.left
  case opened => exact h.right.left
  all_goals trivial

structure Within (maxConnections : Nat) (s : ManagerState) : Prop extends Owned s where
  limit : s.maxConnections = maxConnections
  nodup : s.running.Nodup
  count : s.running.length ≤ maxConnections

namespace Within

variable {maxConnections : Nat}

-- Connections that have their entries are not more than there are entries.
theorem running_length_le (h : Within maxConnections s) (hf : ∀ c ∈ s.running, c ∉ s.failed) :
    s.running.length ≤ s.connections.rows.length := by
  refine (h.nodup.subperm fun c hc => ?_).length_le
  exact Table.mem_of_find? (h.entry c hc (hf c hc))

theorem register (h : Within maxConnections s) (hn : ¬s.isFull) (ha : s.Admits addrKey) :
    Within maxConnections (s.register addrKey) where
  toOwned := h.toOwned.register ha.left
  limit   := h.limit
  nodup   := by
    refine List.nodup_cons.mpr ⟨fun hc => ?_, h.nodup⟩
    exact ha.left _ (List.mem_append_left _ hc) rfl
  count   := by
    have hl := h.running_length_le ha.right
    have hm := h.limit
    simp only [isFull, decide_eq_true_eq] at hn
    change s.running.length + 1 ≤ maxConnections
    omega

-- The other steps start no read loop.
theorem of_sublist (h : Within maxConnections s) (ho : Owned s') (hl : s'.maxConnections = s.maxConnections)
    (hr : s'.running.Sublist s.running) : Within maxConnections s' where
  toOwned := ho
  limit   := hl.trans h.limit
  nodup   := h.nodup.sublist hr
  count   := hr.length_le.trans h.count

theorem step (h : Within maxConnections s) (hc : s.Counted e) (hs : s.step e = some s') :
    Within maxConnections s' := by
  have ho : Owned s' := h.toOwned.step hc.unshared hs
  cases e <;> simp only [ManagerState.step, Option.ite_none_right_eq_some, Option.some.injEq] at hs
  case incoming =>
    split at hs <;> subst hs
    · exact h
    case isFalse hf => exact h.register hf (hc.resolve_left hf)
  case opened addrKey =>
    obtain ⟨-, rfl⟩ := hs
    have h' : Within maxConnections { s with connecting := s.connecting.erase addrKey } :=
      h.of_sublist ⟨h.unique, h.entry, h.owner, h.fresh⟩ rfl (.refl _)
    exact h'.register hc.left hc.right
  case connectTo =>
    subst hs
    refine h.of_sublist ho ?_ ?_
    · split <;> rfl
    · split <;> exact .refl _
  case notOpened =>
    obtain ⟨-, rfl⟩ := hs
    exact h.of_sublist ho rfl (.refl _)
  case loopEnds =>
    obtain ⟨-, rfl⟩ := hs
    exact h.of_sublist ho rfl List.filter_sublist
  case send =>
    subst hs
    refine h.of_sublist ho ?_ ?_
    · split <;> rfl
    · split <;> exact .refl _
  case drained =>
    obtain ⟨-, rfl⟩ := hs
    exact h.of_sublist ho rfl (.refl _)
  case drainFails =>
    obtain ⟨-, rfl⟩ := hs
    exact h.of_sublist ho rfl (.refl _)

end Within

end ManagerState

open ManagerState

theorem connection_limit_of_counted (maxConnections : Nat) (s : ManagerState)
    (run : (ConnectionManager.machine maxConnections).Run Counted s) : s.running.length ≤ maxConnections := by
  refine Within.count (run.invariant ?_ fun h => h.step)
  rintro _ rfl
  exact { toOwned := ⟨nofun, nofun, nofun, nofun⟩, limit := rfl, nodup := .nil, count := Nat.zero_le _ }

namespace ManagerState.Admission

def alice : Str :=
  .ofString "10.0.0.2:5555"

def bob : Str :=
  .ofString "10.0.0.3:5555"

-- Two calls of `connect_to` that wait at the same time, for two addresses or for one, and a send that fails on a
-- connection that is still read
def runs : List (List ManagerEvent) :=
  [[.connectTo alice, .connectTo bob, .opened alice, .opened bob],
    [.connectTo alice, .connectTo alice, .opened alice, .opened alice],
    [.incoming alice, .send alice, .drainFails ⟨0, alice⟩, .incoming bob]]

end ManagerState.Admission

open Admission

theorem connection_limit_full : ∃ s, (ConnectionManager.machine 1).Run Counted s ∧ s.isFull ∧
    s.running.length ≤ 1 := by
  have h₀ : (ConnectionManager.machine 1).Run Counted { maxConnections := 1 } := .init rfl
  have h₁ := h₀.step (show Counted _ (.incoming alice) by decide) rfl
  have h₂ := h₁.step (show Counted _ (.incoming bob) by decide) rfl
  exact ⟨_, h₂, by decide, connection_limit_of_counted 1 _ h₂⟩

theorem connection_limit_exceeded :
    runs.Forall fun events => ∃ s, (ConnectionManager.machine 1).Reachable s ∧
      (ConnectionManager.machine 1).exec (fun _ _ => True) { maxConnections := 1 } events = some s ∧
      s.running.length = 2 := by
  have hr : ∀ events ∈ runs, ((ConnectionManager.machine 1).exec (fun _ _ => True) { maxConnections := 1 }
      events).any (·.running.length = 2) := by decide
  refine List.forall_iff_forall_mem.mpr fun events he => ?_
  obtain ⟨s, hs, hp⟩ := (Option.any_eq_true ..).mp (hr events he)
  have h₀ : (ConnectionManager.machine 1).Reachable { maxConnections := 1 } := .init rfl
  exact ⟨s, h₀.exec events hs, hs, of_decide_eq_true hp⟩
