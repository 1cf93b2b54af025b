import Peerc.Trust.Effect

namespace TrustStore

open Relation Worklist

variable {P : Primitives} {s s' : TrustStore} {c : Call} {x y z : DbText} {t : Transition}
  {devices : Devices} {st : TrustStatus}

-- The status of a stored device
def status? (s : TrustStore) (id : DbText) : Option TrustStatus :=
  (s.devices.find? id).map (·.status)

theorem status?_eq_some_iff :
    s.status? x = some st ↔ ∃ r, s.devices.find? x = some r ∧ r.status = st := by
  simp [status?]

section

variable {id : DbText} {transitions : Table (DbText × DbText) Transition Transition.key}

theorem status?_insert {r : TrustedDevice} {devices : Devices} (h : s.devices.insert? r = some devices) :
    status? ⟨devices, transitions⟩ id = if id = r.deviceId then some r.status else s.status? id := by
  simp only [status?, Table.find?_insert? h]
  split <;> rfl

theorem status?_update {k : DbText} {f : TrustedDevice → TrustedDevice}
    {hf : ∀ r, (f r).deviceId = r.deviceId} :
    status? ⟨s.devices.update k f hf, transitions⟩ id =
      if id = k then (s.devices.find? k).map (fun r => (f r).status) else s.status? id := by
  simp only [status?, Table.find?_update]
  split
  case isTrue => rw [Option.map_map]; rfl
  case isFalse => rfl

-- Only a revocation makes a device REVOKED.
theorem Effect.revoked_before (h : Effect P s c s')
    (hc : ∀ {d revokedBy reason now}, c ≠ .revokeDevice d revokedBy reason now)
    (hs : s'.status? id = some .revoked) : s.status? id = some .revoked := by
  cases h
  case revokeDevice => exact absurd rfl hc
  case recordFirstSeen hi | checkFirstSeen hi =>
    rw [status?_insert hi] at hs
    split at hs
    · cases hs
    · exact hs
  case touchLastSeen | checkTouch =>
    rw [touched, status?_update] at hs
    split at hs
    case isTrue hk => exact hk ▸ hs
    case isFalse => exact hs
  case approve hf _ =>
    rw [approved, status?_update] at hs
    split at hs
    · simp [hf] at hs
    · exact hs
  case recordRotation hcarry =>
    cases hcarry
    case skip | keep => exact hs
    case insert hi =>
      rw [status?_insert hi] at hs
      split at hs
      · cases hs
      · exact hs
    case promote hn _ =>
      rw [promoted, status?_update] at hs
      split at hs
      · simp [hn] at hs
      · exact hs

end

-- Two devices are linked when they are connected by recorded transitions, in whichever direction.
abbrev Linked (s : TrustStore) : DbText → DbText → Prop :=
  Reach s.neighbors

-- Some device linked to `id` is REVOKED.
def Tainted (s : TrustStore) (id : DbText) : Prop :=
  ∃ x, s.Linked id x ∧ s.status? x = some .revoked

-- Some device linked to `id` is TRUSTED.
def Backed (s : TrustStore) (id : DbText) : Prop :=
  ∃ x, s.Linked id x ∧ s.status? x = some .trusted

theorem mem_neighbors : y ∈ s.neighbors x ↔
    ∃ t ∈ s.transitions.rows, (t.oldDeviceId = x ∧ t.newDeviceId = y) ∨
      (t.newDeviceId = x ∧ t.oldDeviceId = y) := by
  simp only [neighbors, successors, predecessors, List.mem_append, List.mem_map, List.mem_filter,
    decide_eq_true_eq]
  grind

theorem mem_neighbors_comm : y ∈ s.neighbors x ↔ x ∈ s.neighbors y := by
  simp only [mem_neighbors]
  grind

theorem Linked.symm (h : s.Linked x y) : s.Linked y x := by
  induction h
  case refl => exact .refl
  case tail hz hi => exact .head (mem_neighbors_comm.mp hz) hi

theorem linked_of_mem (h : t ∈ s.transitions.rows) : s.Linked t.oldDeviceId t.newDeviceId :=
  .single <| mem_neighbors.mpr ⟨t, h, .inl ⟨rfl, rfl⟩⟩

theorem neighbors_congr (h : s'.transitions = s.transitions) : s'.neighbors = s.neighbors := by
  funext x
  simp [neighbors, successors, predecessors, h]

-- Replacing a row of `identity_transitions` keeps the two devices it connects.
theorem mem_neighbors_replace : y ∈ neighbors ⟨devices, s.transitions.replace t⟩ x ↔
    y ∈ s.neighbors x ∨ (t.oldDeviceId = x ∧ t.newDeviceId = y) ∨
      (t.newDeviceId = x ∧ t.oldDeviceId = y) := by
  simp only [mem_neighbors, Table.mem_replace]
  constructor
  · rintro ⟨t', rfl | ⟨hm, -⟩, h⟩
    · exact .inr h
    · exact .inl ⟨t', hm, h⟩
  · rintro (⟨t', hm, h⟩ | h)
    · by_cases hk : t'.key = t.key
      · simp only [Transition.key, Prod.mk.injEq] at hk
        exact ⟨t, .inl rfl, hk.left ▸ hk.right ▸ h⟩
      · exact ⟨t', .inr ⟨hm, hk⟩, h⟩
    · exact ⟨t, .inl rfl, h⟩

theorem Linked.replace (h : s.Linked x y) : Linked ⟨devices, s.transitions.replace t⟩ x y :=
  ReflTransGen.mono (fun _ _ h => mem_neighbors_replace.mpr <| .inl h) _ _ h

theorem linked_replace : Linked ⟨devices, s.transitions.replace t⟩ t.oldDeviceId t.newDeviceId :=
  linked_of_mem <| Table.mem_replace.mpr <| .inl rfl

-- A new transition joins the components of its two devices and leaves the others alone.
theorem linked_replace_cases (h : Linked ⟨devices, s.transitions.replace t⟩ x y) :
    s.Linked x y ∨ (s.Linked x t.oldDeviceId ∧ s.Linked t.newDeviceId y) ∨
      (s.Linked x t.newDeviceId ∧ s.Linked t.oldDeviceId y) := by
  induction h
  case refl => exact .inl .refl
  case tail z y _ hz hi =>
    rcases mem_neighbors_replace.mp hz with hz | ⟨rfl, rfl⟩ | ⟨rfl, rfl⟩
    · exact hi.imp (·.tail hz) <| .imp (.imp_right (·.tail hz)) (.imp_right (·.tail hz))
    · rcases hi with h | ⟨h, -⟩ | ⟨h, h'⟩
      · exact .inr <| .inl ⟨h, .refl⟩
      · exact .inr <| .inl ⟨h, .refl⟩
      · exact .inl h
    · rcases hi with h | ⟨h, h'⟩ | ⟨h, -⟩
      · exact .inr <| .inr ⟨h, .refl⟩
      · exact .inl h
      · exact .inr <| .inr ⟨h, .refl⟩

theorem Effect.transitions (h : Effect P s c s') : s'.transitions = s.transitions ∨
    ∃ cert now t devices, c = .recordRotation cert now ∧ t.Records cert ∧
      CarryOver s.devices t now devices ∧ s' = ⟨devices, s.transitions.replace t⟩ := by
  cases h
  case recordRotation cert t now devices _ records _ carry =>
    exact .inr ⟨cert, now, t, devices, rfl, records, carry, rfl⟩
  all_goals exact .inl rfl

theorem Effect.linked (h : Effect P s c s') (hl : s.Linked x y) : s'.Linked x y := by
  rcases h.transitions with ht | ⟨_, _, t, devices, -, -, -, rfl⟩
  · rwa [Linked, neighbors_congr ht]
  · exact hl.replace

-- The traversal of `get_rotation_chain` ends.
theorem exists_loop : ∃ visited, Loop s.neighbors [x] [] visited ∧
    s.rotationChain x = visited.insertionSort fun a b => (s.orderKey a).units ≤ (s.orderKey b).units := by
  have hn : ∀ z, s.neighbors z ≠ [] → z ∈ s.transitionIds := by
    intro z hz
    obtain ⟨y, hy⟩ := List.exists_mem_of_ne_nil _ hz
    simp only [transitionIds, List.mem_flatMap, List.mem_cons, List.not_mem_nil, or_false]
    obtain ⟨t, ht, ⟨rfl, -⟩ | ⟨rfl, -⟩⟩ := mem_neighbors.mp hy
    · exact ⟨t, ht, .inl rfl⟩
    · exact ⟨t, ht, .inr rfl⟩
  exact ⟨_, loop_explore hn (by simp [cost]; omega), rfl⟩

theorem rotationChain_loop : ∃ visited, Loop s.neighbors [x] [] visited ∧
    (s.rotationChain x).Perm visited := by
  obtain ⟨visited, hl, hr⟩ := s.exists_loop
  exact ⟨visited, hl, hr ▸ List.perm_insertionSort _ _⟩

-- It finds the devices linked to the one it starts from.
theorem mem_rotationChain : y ∈ s.rotationChain x ↔ s.Linked x y := by
  obtain ⟨visited, hl, hp⟩ := s.rotationChain_loop
  rw [hp.mem_iff, hl.mem_iff (List.forall_mem_nil _)]
  simp

theorem any_rotationChain : (s.rotationChain x).any (s.status? · = some st) ↔
    ∃ y, s.Linked x y ∧ s.status? y = some st := by
  simp only [List.any_eq_true, mem_rotationChain, decide_eq_true_eq]

theorem chainDecision_eq (direct : TrustDecision) (b : Bool) (ids : List DbText) :
    s.chainDecision direct b ids =
      if ids.any (s.status? · = some .revoked) then .revoked
      else if b || ids.any (s.status? · = some .trusted) then .trusted
      else direct := by
  induction ids generalizing b
  case nil => cases b <;> rfl
  case cons id ids hi =>
    cases hf : s.devices.find? id
    case none =>
      have hs : s.status? id = none := by simp [status?, hf]
      simp only [chainDecision, hf, hi, List.any_cons, hs, reduceCtorEq, decide_false, Bool.false_or]
    case some r =>
      have hs : s.status? id = some r.status := by simp [status?, hf]
      cases hr : r.status <;>
        simp only [chainDecision, hf, hi, List.any_cons, hs, hr, Option.some.injEq, reduceCtorEq,
          decide_false, decide_true, if_false, if_true, Bool.false_or, Bool.or_false, Bool.true_or,
          Bool.or_true]

theorem getRotationChain_run {id : DbText} :
    (getRotationChain id.val).run s = .ok (s.rotationChain id) s := by
  simp only [getRotationChain, EStateM.run_bind, bindText_run]
  rfl

theorem checkWithRotation_run_error {d : Str} (hd : ¬d.Encodable) (k : Str) :
    (checkWithRotation d k).run s = .error .unicodeEncodeError s := by
  simp only [checkWithRotation, check, EStateM.run_bind, get_run_error hd]

-- The answer of `check_with_rotation` in terms of the devices linked to the one asked about
open Classical in
theorem checkWithRotation_run (id : DbText) (k : Str) :
    (checkWithRotation id.val k).run s = .ok
      (if s.directDecision id k = .keyChanged then .keyChanged
      else if s.Tainted id then .revoked
      else if s.Backed id then .trusted
      else s.directDecision id k) s := by
  simp only [checkWithRotation, EStateM.run_bind, check_run]
  by_cases hk : s.directDecision id k = .keyChanged
  · simp only [hk, if_true, EStateM.run_pure]
  · simp only [hk, if_false, EStateM.run_bind, getRotationChain_run]
    refine congrArg (EStateM.Result.ok · s) ?_
    have ht : (s.rotationChain id).any (s.status? · = some .revoked) ↔ s.Tainted id :=
      any_rotationChain
    have hb : (s.rotationChain id).any (s.status? · = some .trusted) ↔ s.Backed id :=
      any_rotationChain
    simp only [chainDecision_eq, Bool.false_or, ht, hb]

end TrustStore
