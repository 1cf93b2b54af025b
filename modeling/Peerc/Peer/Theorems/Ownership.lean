import Peerc.Peer.Manager

-- Who removes whose entry from the table of connections

namespace ManagerState

variable {s s' : ManagerState} {c d : Connection} {e : ManagerEvent}

-- When a connection is registered, none with the same address is winding down.
def Unshared (s : ManagerState) : ManagerEvent → Prop
  | .incoming addrKey => s.isFull ∨ ∀ c ∈ s.running ++ s.draining, c.addrKey ≠ addrKey
  | .opened addrKey   => ∀ c ∈ s.running ++ s.draining, c.addrKey ≠ addrKey
  | _                 => True

instance : (e : ManagerEvent) → Decidable (s.Unshared e)
  | .incoming _ => inferInstanceAs (Decidable (_ ∨ ∀ c ∈ _, _))
  | .opened _   => List.decidableBAll _ _
  | .connectTo _ | .notOpened _ | .loopEnds _ | .send _ | .drained _ | .drainFails _ =>
    isTrue trivial

structure Owned (s : ManagerState) : Prop where
  unique : ∀ c ∈ s.running ++ s.draining, ∀ d ∈ s.running ++ s.draining, c.addrKey = d.addrKey → c = d
  entry  : ∀ c ∈ s.running, c ∉ s.failed → s.connections.find? c.addrKey = some c
  owner  : ∀ k d, s.connections.find? k = some d → d ∈ s.running
  fresh  : ∀ c ∈ s.running ++ s.draining ++ s.failed, c.id < s.next

namespace Owned

theorem register (h : Owned s) {addrKey : Str}
    (hu : ∀ c ∈ s.running ++ s.draining, c.addrKey ≠ addrKey) : Owned (s.register addrKey) := by
  have hr {c : Connection} (hc : c ∈ s.running) := hu c (List.mem_append_left _ hc)
  constructor <;>
    simp only [ManagerState.register, List.cons_append, List.mem_cons, Table.find?_replace]
  case unique =>
    intro c hc d hd he
    rcases hc with rfl | hc <;> rcases hd with rfl | hd
    · rfl
    · exact (hu d hd he.symm).elim
    · exact (hu c hc he).elim
    · exact h.unique c hc d hd he
  case entry =>
    intro c hc hf
    rcases hc with rfl | hc
    · exact if_pos rfl
    · rw [if_neg (hr hc)]
      exact h.entry c hc hf
  case owner =>
    intro k d hd
    split at hd
    · exact .inl (Option.some.inj hd).symm
    · exact .inr (h.owner k d hd)
  case fresh =>
    intro c hc
    rcases hc with rfl | hc
    · exact Nat.lt_succ_self _
    · exact Nat.lt_succ_of_lt (h.fresh c hc)

-- The entry under the address of a connection that runs or drains is its own.
theorem eq_of_find? (h : Owned s) (hc : c ∈ s.running ++ s.draining)
    (hd : s.connections.find? c.addrKey = some d) : d = c :=
  h.unique d (List.mem_append_left _ (h.owner _ _ hd)) c hc (Table.key_of_find? hd)

theorem loopEnds (h : Owned s) (hc : c ∈ s.running) :
    Owned { s with
      connections := s.connections.erase c.addrKey
      running     := s.running.filter (· ≠ c) } := by
  have hl := List.mem_append_left s.draining hc
  constructor <;>
    simp only [List.mem_append, List.mem_filter, decide_eq_true_eq, Table.find?_erase]
  case unique =>
    intro c' hc' d' hd'
    exact h.unique c' (List.mem_append.mpr (hc'.imp_left And.left)) d'
      (List.mem_append.mpr (hd'.imp_left And.left))
  case entry =>
    rintro c' ⟨hc', hn⟩ hf
    have hk : c'.addrKey ≠ c.addrKey := fun he =>
      hn (h.unique c' (List.mem_append_left _ hc') c hl he)
    rw [if_neg hk]
    exact h.entry c' hc' hf
  case owner =>
    intro k d hd
    split at hd
    · cases hd
    case isFalse hk =>
      exact ⟨h.owner k d hd, fun he => hk (he ▸ (Table.key_of_find? hd).symm)⟩
  case fresh =>
    intro c' hc'
    refine h.fresh c' ?_
    simp only [List.mem_append]
    exact hc'.imp_left (·.imp_left And.left)

theorem send (h : Owned s) {addrKey : Str} (hc : s.connections.find? addrKey = some c) :
    Owned { s with draining := c :: s.draining } := by
  have hr := h.owner _ _ hc
  -- Nothing drains that does not run or drain already.
  have hm {d : Connection} (hd : d ∈ s.running ++ c :: s.draining) : d ∈ s.running ++ s.draining := by
    simp only [List.mem_append, List.mem_cons] at hd ⊢
    rcases hd with hd | rfl | hd
    · exact .inl hd
    · exact .inl hr
    · exact .inr hd
  refine { h with unique := fun c' hc' d' hd' => h.unique c' (hm hc') d' (hm hd'), fresh := ?_ }
  intro d hd
  rcases List.mem_append.mp hd with hd | hd
  · exact h.fresh d (List.mem_append_left _ (hm hd))
  · exact h.fresh d (List.mem_append_right _ hd)

theorem drained (h : Owned s) (c : Connection) :
    Owned { s with draining := s.draining.erase c } := by
  have hs := (List.erase_sublist (a := c) (l := s.draining)).subset
  have hm {d : Connection} (hd : d ∈ s.running ++ s.draining.erase c) : d ∈ s.running ++ s.draining :=
    List.mem_append.mpr ((List.mem_append.mp hd).imp_right (hs ·))
  refine { h with unique := fun c' hc' d' hd' => h.unique c' (hm hc') d' (hm hd'), fresh := ?_ }
  exact fun d hd => h.fresh d (List.mem_append.mpr ((List.mem_append.mp hd).imp_left hm))

theorem drainFails (h : Owned s) (hc : c ∈ s.draining) :
    Owned { s with connections := s.connections.erase c.addrKey, failed := c :: s.failed } := by
  have hl := List.mem_append_right s.running hc
  constructor <;> simp only [Table.find?_erase]
  case unique => exact h.unique
  case entry =>
    intro c' hc' hf
    obtain ⟨hn, hf⟩ := List.ne_and_not_mem_of_not_mem_cons hf
    have hk : c'.addrKey ≠ c.addrKey := fun he =>
      hn (h.unique c' (List.mem_append_left _ hc') c hl he)
    rw [if_neg hk]
    exact h.entry c' hc' hf
  case owner =>
    intro k d hd
    split at hd
    · cases hd
    · exact h.owner k d hd
  case fresh =>
    intro d hd
    simp only [List.mem_append, List.mem_cons] at hd
    rcases hd with hd | rfl | hd
    · exact h.fresh d (List.mem_append_left _ (List.mem_append.mpr hd))
    · exact h.fresh d (List.mem_append_left _ hl)
    · exact h.fresh d (List.mem_append_right _ hd)

theorem step (h : Owned s) (hu : s.Unshared e) (hs : s.step e = some s') : Owned s' := by
  cases e <;> simp only [ManagerState.step, Option.ite_none_right_eq_some, Option.some.injEq] at hs
  case incoming =>
    split at hs <;> subst hs
    · exact h
    case isFalse hf => exact h.register (hu.resolve_left hf)
  case connectTo =>
    split at hs <;> subst hs
    · exact h
    · exact ⟨h.unique, h.entry, h.owner, h.fresh⟩
  case opened addrKey =>
    obtain ⟨-, rfl⟩ := hs
    have h' : Owned { s with connecting := s.connecting.erase addrKey } :=
      ⟨h.unique, h.entry, h.owner, h.fresh⟩
    exact h'.register hu
  case notOpened =>
    obtain ⟨-, rfl⟩ := hs
    exact ⟨h.unique, h.entry, h.owner, h.fresh⟩
  case loopEnds =>
    obtain ⟨hc, rfl⟩ := hs
    exact h.loopEnds hc
  case send addrKey =>
    subst hs
    cases hc : s.connections.find? addrKey
    case none => exact h
    case some => exact h.send hc
  case drained c =>
    obtain ⟨-, rfl⟩ := hs
    exact h.drained c
  case drainFails =>
    obtain ⟨hc, rfl⟩ := hs
    exact (h.drainFails hc).drained _

end Owned

theorem owned_of_run {maxConnections : Nat}
    (run : (ConnectionManager.machine maxConnections).Run Unshared s) : Owned s := by
  refine run.invariant ?_ fun h => h.step
  rintro _ rfl
  exact ⟨nofun, nofun, nofun, nofun⟩

-- An entry goes away with its address, and has the address of the connection only if it is the entry.
theorem Owned.find?_erase (h : Owned s) (hc : c ∈ s.running ++ s.draining) (hn : d ≠ c)
    (hd : s.connections.find? d.addrKey = some d) :
    (s.connections.erase c.addrKey).find? d.addrKey = some d := by
  rw [Table.find?_erase, if_neg]
  · exact hd
  · exact fun he => hn (h.eq_of_find? hc (he ▸ hd))

end ManagerState

open ManagerState in
theorem connection_table_owned {maxConnections : Nat} {s : ManagerState}
    (run : (ConnectionManager.machine maxConnections).Run Unshared s) :
    (∀ c s', (s.step (.loopEnds c) = some s' ∨ s.step (.drainFails c) = some s') →
      ∀ d, d ≠ c → s.connections.find? d.addrKey = some d → s'.connections.find? d.addrKey = some d) ∧
    (∀ c ∈ s.running, c ∉ s.failed →
      s.connections.find? c.addrKey = some c ∧
      s.step (.send c.addrKey) = some { s with draining := c :: s.draining }) := by
  have h := owned_of_run run
  refine ⟨fun c s' hs d hn hd => ?_, fun c hc hf => ⟨h.entry c hc hf, ?_⟩⟩
  · simp only [step, Option.ite_none_right_eq_some, Option.some.injEq] at hs
    rcases hs with ⟨hc, rfl⟩ | ⟨hc, rfl⟩
    · exact h.find?_erase (List.mem_append_left _ hc) hn hd
    · exact h.find?_erase (List.mem_append_right _ hc) hn hd
  · rw [step, h.entry c hc hf]

namespace ManagerState.Reuse

def addrKey : Str :=
  Str.ofString "10.0.0.2:5555"

-- Two calls of `connect_to` for one address that both find no entry
def events : List ManagerEvent :=
  [.connectTo addrKey, .connectTo addrKey, .opened addrKey, .opened addrKey]

end ManagerState.Reuse

-- The end of the first connection takes the second one out of the table.
open ManagerState Reuse in
theorem connection_table_owned_reused :
    ∃ s s', (ConnectionManager.machine 64).Reachable s ∧ s.step (.loopEnds ⟨0, addrKey⟩) = some s' ∧
      ⟨1, addrKey⟩ ∈ s'.running ∧ ⟨1, addrKey⟩ ∉ s'.failed ∧
      s.connections.find? addrKey = some ⟨1, addrKey⟩ ∧ s'.connections.find? addrKey = none :=
  ⟨_, _, Machine.Run.exec (.init rfl) events rfl, rfl, by decide, by decide, by decide, by decide⟩

-- A connection that is opened while no other one has its address
open ManagerState Reuse in
theorem connection_table_owned_opened :
    ∃ s, (ConnectionManager.machine 64).Run Unshared s ∧ ⟨0, addrKey⟩ ∈ s.running ∧
      s.connections.find? addrKey = some ⟨0, addrKey⟩ := by
  have h₀ : (ConnectionManager.machine 64).Run Unshared { maxConnections := 64 } := .init rfl
  have h₁ := h₀.step (show Unshared _ (.connectTo addrKey) from trivial) rfl
  have h₂ := h₁.step (show Unshared _ (.opened addrKey) by decide) rfl
  have h := (connection_table_owned h₂).right ⟨0, addrKey⟩ (by decide) (by decide)
  exact ⟨_, h₂, by decide, h.left⟩
