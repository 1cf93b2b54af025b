import Peerc.Trust.Theorems.ChainSound

namespace TrustStore

open Relation Worklist

variable {s : TrustStore} {id x y : DbText} {k : Str}

-- The component of a device: what is connected to it by transitions, whichever way they point
abbrev Connected (s : TrustStore) : DbText → DbText → Prop :=
  EqvGen s.Rotated

theorem mem_neighbors_iff_rotated : y ∈ s.neighbors x ↔ s.Rotated x y ∨ s.Rotated y x := by
  simp only [mem_neighbors, Rotated]
  constructor
  · rintro ⟨t, ht, h | ⟨hn, ho⟩⟩
    · exact .inl ⟨t, ht, h⟩
    · exact .inr ⟨t, ht, ho, hn⟩
  · rintro (⟨t, ht, h⟩ | ⟨t, ht, ho, hn⟩)
    · exact ⟨t, ht, .inl h⟩
    · exact ⟨t, ht, .inr ⟨hn, ho⟩⟩

theorem linked_iff_connected : s.Linked x y ↔ s.Connected x y := by
  constructor
  · intro h
    induction h
    case refl => exact .refl _
    case tail hz hi =>
      rcases mem_neighbors_iff_rotated.mp hz with hz | hz
      · exact hi.trans _ _ _ (.rel _ _ hz)
      · exact hi.trans _ _ _ (.symm _ _ (.rel _ _ hz))
  · intro h
    induction h
    case rel h => exact .single (mem_neighbors_iff_rotated.mpr (.inl h))
    case refl => exact .refl
    case symm hi => exact hi.symm
    case trans hi hi' => exact hi.trans hi'

theorem checkWithRotation_eq_revoked_iff :
    (checkWithRotation id.val k).run' s = some .revoked ↔
      (∀ r, s.devices.find? id = some r → r.publicKey.val = k) ∧ s.Tainted id := by
  rw [EStateM.run'_eq, checkWithRotation_run, ← directDecision_ne_keyChanged_iff]
  simp only [EStateM.Result.value?, Option.some.injEq]
  by_cases hk : s.directDecision id k = .keyChanged
  · simp [hk]
  by_cases ht : s.Tainted id
  · simp [hk, ht]
  by_cases hx : s.Backed id
  · simp [hk, ht, hx]
  · simp only [hk, ht, hx, if_false, and_false, iff_false]
    exact fun h => ht (directDecision_eq_revoked h)

end TrustStore

open TrustStore

-- The loop of `get_rotation_chain` ends, and the chain it returns is the component of the device. One
-- REVOKED device of the component decides the answer of `check_with_rotation`, unless the key changed.
theorem revocation_taints_component (s : TrustStore) (id : DbText) :
    (∃ visited chain, Worklist.Loop s.neighbors [id] [] visited ∧ chain.Perm visited ∧
      (getRotationChain id.val).run s = .ok chain s ∧ chain.Nodup ∧
      ∀ x, x ∈ chain ↔ s.Connected id x) ∧
    ∀ k : Str, (checkWithRotation id.val k).run' s = some .revoked ↔
      (¬∃ r, s.devices.find? id = some r ∧ r.publicKey.val ≠ k) ∧
        ∃ x r, s.Connected id x ∧ s.devices.find? x = some r ∧ r.status = .revoked := by
  constructor
  · obtain ⟨visited, hl, hp⟩ := s.rotationChain_loop
    refine ⟨visited, s.rotationChain id, hl, hp, getRotationChain_run, ?_, fun x => ?_⟩
    · exact hp.nodup_iff.mpr (hl.nodup .nil)
    · rw [mem_rotationChain, linked_iff_connected]
  · intro k
    rw [checkWithRotation_eq_revoked_iff]
    refine and_congr (by simp) ?_
    simp only [Tainted, linked_iff_connected, status?_eq_some_iff, exists_and_left]
