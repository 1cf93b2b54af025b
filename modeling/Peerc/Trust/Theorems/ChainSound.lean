import Peerc.Trust.Chain
import Peerc.Trust.Theorems.Monotone
import Peerc.Trust.Theorems.Provenance
import Peerc.Lib.Refines

namespace TrustStore

open Relation

variable {P : Primitives} {s s' : TrustStore} {c : Call} {id x y : DbText} {k : Str}

-- Some recorded rotation replaced `x` by `y`.
def Rotated (s : TrustStore) (x y : DbText) : Prop :=
  ∃ t ∈ s.transitions.rows, t.oldDeviceId = x ∧ t.newDeviceId = y

-- `y` descends from `x` by recorded rotations, each from an old device to a new one.
abbrev Leads (s : TrustStore) : DbText → DbText → Prop :=
  ReflTransGen s.Rotated

-- A directed path of transitions from a TRUSTED device, of which the last one carries the key `k`
def Introduced (s : TrustStore) (id : DbText) (k : Str) : Prop :=
  ∃ x, s.status? x = some .trusted ∧
    ∃ t ∈ s.transitions.rows, s.Leads x t.oldDeviceId ∧ t.newDeviceId = id ∧ t.newPublicKey.val = k

-- What an answer TRUSTED of `check_with_rotation` is meant to say
def ChainSound (s : TrustStore) (d k : Str) : Prop :=
  (checkWithRotation d k).run' s = some .trusted → ∃ id : DbText, id.val = d ∧
    ((∃ r, s.devices.find? id = some r ∧ r.status = .trusted ∧ r.publicKey.val = k) ∨
      s.Introduced id k)

-- The states and questions for which TRUSTED is the wrong answer: the device is unknown or PENDING
-- under the key asked about, it is linked to a TRUSTED device and to no REVOKED one, but no TRUSTED
-- device leads to it with this key.
def Mistaken (s : TrustStore) (d k : Str) : Prop :=
  ∃ id : DbText, id.val = d ∧
    (∀ r, s.devices.find? id = some r → r.publicKey.val = k ∧ r.status = .pending) ∧
    ¬s.Tainted id ∧ s.Backed id ∧ ¬s.Introduced id k

theorem directDecision_eq_keyChanged_iff : s.directDecision id k = .keyChanged ↔
    ∃ r, s.devices.find? id = some r ∧ r.publicKey.val ≠ k := by
  simp only [directDecision]
  cases s.devices.find? id
  case none => simp
  case some r =>
    by_cases hk : r.publicKey.val = k
    · cases hr : r.status <;> simp [hk, hr]
    · simp [hk]

theorem directDecision_eq_trusted (h : s.directDecision id k = .trusted) :
    s.status? id = some .trusted := by
  simp only [directDecision] at h
  cases hf : s.devices.find? id
  case none => simp [hf] at h
  case some r =>
    by_cases hk : r.publicKey.val = k
    · cases hr : r.status <;> simp_all [status?]
    · simp [hf, hk] at h

theorem directDecision_eq_revoked (h : s.directDecision id k = .revoked) : s.Tainted id := by
  refine ⟨id, .refl, ?_⟩
  simp only [directDecision] at h
  cases hf : s.devices.find? id
  case none => simp [hf] at h
  case some r =>
    by_cases hk : r.publicKey.val = k
    · cases hr : r.status <;> simp_all [status?]
    · simp [hf, hk] at h

theorem directDecision_ne_keyChanged_iff : s.directDecision id k ≠ .keyChanged ↔
    ∀ r, s.devices.find? id = some r → r.publicKey.val = k := by
  rw [ne_eq, directDecision_eq_keyChanged_iff]
  grind

theorem checkWithRotation_eq_trusted_iff :
    (checkWithRotation id.val k).run' s = some .trusted ↔
      (∀ r, s.devices.find? id = some r → r.publicKey.val = k) ∧ ¬s.Tainted id ∧ s.Backed id := by
  rw [EStateM.run'_eq, checkWithRotation_run, ← directDecision_ne_keyChanged_iff]
  simp only [EStateM.Result.value?, Option.some.injEq]
  by_cases hk : s.directDecision id k = .keyChanged
  · simp [hk]
  by_cases ht : s.Tainted id
  · simp [hk, ht]
  by_cases hx : s.Backed id
  · simp [hk, ht, hx]
  · simp only [hk, ht, hx, if_false, not_false_eq_true, and_false, iff_false]
    exact fun h => hx ⟨id, .refl, directDecision_eq_trusted h⟩

theorem chainSound_iff (s : TrustStore) (d k : Str) : s.ChainSound d k ↔ ¬s.Mistaken d k := by
  constructor
  · rintro h ⟨id, rfl, hr, ht, hx, hi⟩
    have hs := checkWithRotation_eq_trusted_iff.mpr ⟨fun r hf => (hr r hf).left, ht, hx⟩
    obtain ⟨id', hid, ⟨r, hf, hst, -⟩ | hi'⟩ := h hs
    · cases Subtype.ext hid
      simp [(hr r hf).right] at hst
    · cases Subtype.ext hid
      exact hi hi'
  · intro h hs
    by_cases hd : d.Encodable
    case neg => simp [EStateM.run'_eq, EStateM.Result.value?, checkWithRotation_run_error hd] at hs
    case pos =>
      let id : DbText := ⟨d, hd⟩
      obtain ⟨hk, ht, hx⟩ : (∀ r, s.devices.find? id = some r → r.publicKey.val = k) ∧
          ¬s.Tainted id ∧ s.Backed id := checkWithRotation_eq_trusted_iff.mp hs
      refine ⟨id, rfl, or_iff_not_imp_right.mpr fun hi => ?_⟩
      by_contra hn
      refine h ⟨id, rfl, fun r hf => ⟨hk r hf, ?_⟩, ht, hx, hi⟩
      cases hr : r.status
      case pending => rfl
      case trusted => exact absurd ⟨r, hf, hr, hk r hf⟩ hn
      case revoked => exact absurd ⟨id, .refl, status?_eq_some_iff.mpr ⟨r, hf, hr⟩⟩ ht

-- The user or a rotation has decided about the device.
def Decided (s : TrustStore) (id : DbText) : Prop :=
  ∃ r, s.devices.find? id = some r ∧ r.status ≠ .pending

theorem Extends.decided (h : s.Extends s') (hd : s.Decided id) : s'.Decided id := by
  obtain ⟨r, hf, hr⟩ := hd
  have ⟨r', hf', ha⟩ := h id r hf
  refine ⟨r', hf', fun hp => hr ?_⟩
  have := ha.status
  cases hs : r.status <;> simp_all [TrustStatus.rank]

theorem Extends.revoked (h : s.Extends s') (hr : s.status? id = some .revoked) :
    s'.status? id = some .revoked := by
  obtain ⟨r, hf, hr⟩ := status?_eq_some_iff.mp hr
  have ⟨r', hf', ha⟩ := h id r hf
  exact status?_eq_some_iff.mpr ⟨r', hf', (ha.revoked hr).left⟩

theorem Tainted.linked (h : s.Tainted x) (hl : s.Linked y x) : s.Tainted y := by
  obtain ⟨z, hz, hr⟩ := h
  exact ⟨z, hl.trans hz, hr⟩

theorem Effect.tainted (h : Effect P s c s') (ht : s.Tainted x) : s'.Tainted x := by
  obtain ⟨y, hy, hr⟩ := ht
  exact ⟨y, h.linked hy, h.extends.revoked hr⟩

-- A certificate is recorded only when its old device has been decided about, unless it concerns
-- devices that a revocation has tainted already.
def Anchored (P : Primitives) (s : TrustStore) : Call → Prop
  | .recordRotation cert _ => verifyTransitionCertificate P cert →
    ∀ old new : DbText, old.val = cert.oldDeviceId → new.val = cert.newDeviceId →
      s.Decided old ∨ s.Tainted old ∨ s.Tainted new
  | _ => True

-- The invariant of runs with anchored certificates
def Settled (s : TrustStore) : Prop :=
  ∀ t ∈ s.transitions.rows,
    s.Tainted t.oldDeviceId ∨ (s.Decided t.oldDeviceId ∧ s.Decided t.newDeviceId)

theorem CarryOver.decided_new {t : Transition} {now : Double} {devices : Devices} {r : TrustedDevice}
    (h : CarryOver s.devices t now devices) (hf : s.devices.find? t.oldDeviceId = some r)
    (hr : r.status = .trusted) {transitions} :
    Decided ⟨devices, transitions⟩ t.newDeviceId := by
  cases h
  case skip old => exact absurd hr (old r hf)
  case insert r' _ _ _ insert =>
    refine ⟨successorRow t r'.name now, ?_, by simp [successorRow]⟩
    simp [Table.find?_insert? insert, successorRow]
  case promote r' _ _ new pending =>
    exact ⟨{ r' with status := .trusted, lastSeen := now }, by simp [promoted, Table.find?_update, new],
      by simp⟩
  case keep r' _ _ new pending => exact ⟨r', new, pending⟩

theorem Effect.settled (h : Effect P s c s') (ha : Anchored P s c) (hs : s.Settled) : s'.Settled := by
  -- A transition that was there before is still settled, whatever the call did.
  have old (t) (ht : t ∈ s.transitions.rows) : s'.Tainted t.oldDeviceId ∨
      (s'.Decided t.oldDeviceId ∧ s'.Decided t.newDeviceId) :=
    (hs t ht).imp h.tainted (And.imp h.extends.decided h.extends.decided)
  cases h
  case recordRotation cert t now devices verified records rev carry =>
    intro t' ht'
    rcases Table.mem_replace.mp ht' with rfl | ⟨ht', -⟩
    case inr => exact old t' ht'
    case inl =>
      have he := Effect.recordRotation verified records rev carry
      rcases ha verified _ _ records.oldDeviceId records.newDeviceId with ⟨r, hf, hr⟩ | ht | ht
      · refine .inr ⟨he.extends.decided ⟨r, hf, hr⟩, carry.decided_new hf ?_⟩
        have := rev r hf
        cases hs : r.status <;> simp_all
      · exact .inl <| he.tainted ht
      · exact .inl <| (he.tainted ht).linked linked_replace
  all_goals exact old

-- An untainted device that is linked to another one has a row, and the row is TRUSTED.
theorem Settled.chainSound (h : s.Settled) (d k : Str) : s.ChainSound d k := by
  rw [chainSound_iff]
  rintro ⟨id, rfl, hr, ht, ⟨x, hl, hx⟩, -⟩
  have hn : ¬s.Decided id := fun ⟨r, hf, hs⟩ => hs (hr r hf).right
  rcases hl.cases_head with rfl | ⟨y, hy, -⟩
  · obtain ⟨r, hf, hs⟩ := status?_eq_some_iff.mp hx
    exact hn ⟨r, hf, by simp [hs]⟩
  · obtain ⟨t, htm, ⟨rfl, -⟩ | ⟨rfl, -⟩⟩ := mem_neighbors.mp hy
    · exact (h t htm).elim ht fun hd => hn hd.left
    · exact (h t htm).elim (fun h => ht <| h.linked (linked_of_mem htm).symm) fun hd => hn hd.right

theorem settled_empty : empty.Settled :=
  fun _ ht => absurd ht List.not_mem_nil

end TrustStore

open TrustStore

-- TRUSTED is the right answer except in the mistaken cases, and these do not come up in a run from the
-- empty store in which every certificate is anchored.
theorem check_with_rotation_sound (P : Primitives) (calls : List Call) :
    (∀ (s : TrustStore) (d k : Str), s.ChainSound d k ↔ ¬s.Mistaken d k) ∧
    ((∀ pre c post, calls = pre ++ c :: post → Anchored P (empty.run P pre) c) →
      ∀ d k : Str, (empty.run P calls).ChainSound d k) :=
  ⟨chainSound_iff, fun ha => (run_induction Effect.settled settled_empty ha).chainSound⟩

namespace ChainSound

open Provenance

-- "m" is PENDING and names the TRUSTED device "a" as its successor.
def successorRun : List Call := approvals ++ [
  .recordFirstSeen (Str.ofString "m") (Str.ofString "x") (Str.ofString "n") .zero,
  .recordRotation (.signedWith otherKey (Str.ofString "m") (Str.ofString "a") (Str.ofString "y")) .zero
]

end ChainSound

theorem check_with_rotation_successor :
    ¬∀ (P : Primitives) (calls : List Call) (d k : Str), (empty.run P calls).ChainSound d k := by
  intro h
  have ha : (checkWithRotation (Str.ofString "m") (Str.ofString "x")).run'
      (empty.run .transparent ChainSound.successorRun) = some .trusted := by decide +kernel
  have hp : (empty.run .transparent ChainSound.successorRun).status? (.ofString "m") =
      some .pending := by decide +kernel
  have hm : ∀ t ∈ (empty.run .transparent ChainSound.successorRun).transitions.rows,
      t.newDeviceId ≠ .ofString "m" := by decide +kernel
  obtain ⟨id, hid, h⟩ := h _ _ _ _ ha
  obtain rfl : id = .ofString "m" := Subtype.ext hid
  obtain ⟨r, hf, hr, -⟩ | ⟨_, _, t, ht, _, hn, -⟩ := h
  · have := hp.symm.trans <| status?_eq_some_iff.mpr ⟨r, hf, hr⟩
    simp at this
  · exact hm t ht hn

-- The certificate from the TRUSTED device "a" to "m" is anchored.
theorem check_with_rotation_rotated :
    (checkWithRotation (Str.ofString "m") (Str.ofString "x")).run'
      (empty.run .transparent (Provenance.rotationRun Provenance.storedKey)) = some .trusted ∧
    (empty.run .transparent (Provenance.rotationRun Provenance.storedKey)).ChainSound
      (Str.ofString "m") (Str.ofString "x") := by
  refine ⟨by decide +kernel, (check_with_rotation_sound .transparent _).right ?_ _ _⟩
  intro pre c post hs
  cases c
  case recordRotation cert now =>
    obtain ⟨rfl, rfl⟩ := Provenance.rotationRun_split hs
    intro _ old _ ho _
    obtain rfl : old = .ofString "a" := Subtype.ext ho
    have ha : (empty.run .transparent Provenance.approvals).status? (.ofString "a") = some .trusted := by
      decide +kernel
    obtain ⟨r, hf, hr⟩ := status?_eq_some_iff.mp ha
    exact .inl ⟨r, hf, by simp [hr]⟩
  all_goals trivial
