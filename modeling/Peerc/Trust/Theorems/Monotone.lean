import Peerc.Trust.Effect

namespace TrustStatus

-- PENDING → TRUSTED → REVOKED
def rank : TrustStatus → Nat
  | pending => 0
  | trusted => 1
  | revoked => 2

theorem rank_le_trusted : {status : TrustStatus} → status ≠ .revoked → status.rank ≤ rank .trusted
  | pending, _ | trusted, _ => by simp [rank]
  | revoked, h              => absurd rfl h

theorem rank_le_revoked : (status : TrustStatus) → status.rank ≤ rank .revoked
  | pending | trusted | revoked => by simp [rank]

end TrustStatus

-- How a row can change over any number of calls: the pinned data stays, the status only moves forward
-- and a revocation is final.
structure TrustedDevice.Advances (r r' : TrustedDevice) : Prop where
  deviceId  : r'.deviceId = r.deviceId
  publicKey : r'.publicKey = r.publicKey
  name      : r'.name = r.name
  firstSeen : r'.firstSeen = r.firstSeen
  status    : r.status.rank ≤ r'.status.rank
  revoked   : r.status = .revoked → r'.status = .revoked ∧ r'.revokedBy = r.revokedBy ∧
    r'.revokedAt = r.revokedAt ∧ r'.revokeReason = r.revokeReason

namespace TrustedDevice.Advances

variable {r r₁ r₂ r₃ : TrustedDevice}

theorem refl : r.Advances r :=
  ⟨rfl, rfl, rfl, rfl, le_rfl, fun h => ⟨h, rfl, rfl, rfl⟩⟩

theorem trans (h₁ : r₁.Advances r₂) (h₂ : r₂.Advances r₃) : r₁.Advances r₃ where
  deviceId  := h₂.deviceId.trans h₁.deviceId
  publicKey := h₂.publicKey.trans h₁.publicKey
  name      := h₂.name.trans h₁.name
  firstSeen := h₂.firstSeen.trans h₁.firstSeen
  status    := h₁.status.trans h₂.status
  revoked h := by
    have ⟨h', hb, ha, hr⟩ := h₁.revoked h
    have ⟨h'', hb', ha', hr'⟩ := h₂.revoked h'
    exact ⟨h'', hb'.trans hb, ha'.trans ha, hr'.trans hr⟩

end TrustedDevice.Advances

namespace TrustStore

variable {P : Primitives} {s s' : TrustStore} {c : Call} {id : DbText}
  {transitions : Table (DbText × DbText) Transition Transition.key}

-- Every device row of `s` is in `s'`, possibly advanced.
def Extends (s s' : TrustStore) : Prop :=
  ∀ id r, s.devices.find? id = some r → ∃ r', s'.devices.find? id = some r' ∧ r.Advances r'

theorem Extends.refl : s.Extends s :=
  fun _ r h => ⟨r, h, .refl⟩

theorem Extends.trans {s₁ s₂ s₃ : TrustStore} (h₁ : s₁.Extends s₂) (h₂ : s₂.Extends s₃) :
    s₁.Extends s₃ := by
  intro id r h
  have ⟨r', h', ha⟩ := h₁ id r h
  have ⟨r'', h'', ha'⟩ := h₂ id r' h'
  exact ⟨r'', h'', ha.trans ha'⟩

theorem extends_insert {r' : TrustedDevice} {devices : Devices}
    (h : s.devices.insert? r' = some devices) : s.Extends ⟨devices, transitions⟩ := by
  intro id r hf
  refine ⟨r, ?_, .refl⟩
  have hne : id ≠ r'.deviceId := by
    rintro rfl
    have := Table.insert?_eq_none_iff.mpr (Option.isSome_iff_exists.mpr ⟨r, hf⟩)
    simp [this] at h
  simpa [Table.find?_insert? h, hne] using hf

-- An update extends the store if it advances the one row it touches.
theorem extends_update {k : DbText} {f : TrustedDevice → TrustedDevice}
    {hf : ∀ r, (f r).deviceId = r.deviceId}
    (h : ∀ r, s.devices.find? k = some r → r.Advances (f r)) :
    s.Extends ⟨s.devices.update k f hf, transitions⟩ := by
  intro id r hr
  by_cases hk : id = k
  · subst hk
    exact ⟨f r, by simp [Table.find?_update, hr], h r hr⟩
  · exact ⟨r, by simp [Table.find?_update, hk, hr], .refl⟩

theorem touched_extends {now : Double} : s.Extends (s.touched id now) :=
  extends_update fun _ _ => ⟨rfl, rfl, rfl, rfl, le_rfl, fun h => ⟨h, rfl, rfl, rfl⟩⟩

theorem carryOver_extends {t : Transition} {now : Double} {devices : Devices}
    (h : CarryOver s.devices t now devices) : s.Extends ⟨devices, transitions⟩ := by
  cases h
  case skip | keep => exact Extends.refl (s := s)
  case insert hi => exact extends_insert hi
  case promote new pending =>
    refine extends_update fun r hr => ?_
    cases new.symm.trans hr
    exact ⟨rfl, rfl, rfl, rfl, by simp [pending, TrustStatus.rank], by simp [pending]⟩

-- One case per writer
theorem Effect.extends (h : Effect P s c s') : s.Extends s' := by
  cases h
  case recordFirstSeen hi | checkFirstSeen hi => exact extends_insert hi
  case touchLastSeen | checkTouch => exact touched_extends
  case approve r hf hs =>
    refine extends_update fun r' hr => ?_
    cases hf.symm.trans hr
    exact ⟨rfl, rfl, rfl, rfl, TrustStatus.rank_le_trusted hs, (absurd · hs)⟩
  case revokeDevice r hf hs =>
    refine extends_update fun r' hr => ?_
    cases hf.symm.trans hr
    exact ⟨rfl, rfl, rfl, rfl, TrustStatus.rank_le_revoked _, (absurd · hs)⟩
  case recordRotation hc => exact carryOver_extends hc

theorem run_extends (P : Primitives) (s : TrustStore) (calls : List Call) :
    s.Extends (s.run P calls) :=
  run_induction (I := s.Extends) (Q := fun _ _ => True) (fun he _ h => h.trans he.extends) .refl
    fun _ _ _ _ => trivial

end TrustStore

-- Over any sequence of calls, a device that is present stays present with its pinned data, its status
-- only moves forward, a revocation keeps its record, and a call that raises changes neither table.
theorem trust_status_monotone (P : Primitives) (s : TrustStore) (calls : List Call) :
    (∀ (id : DbText) (r : TrustedDevice), s.devices.find? id = some r →
      ∃ r', (s.run P calls).devices.find? id = some r' ∧ r.Advances r') ∧
    (∀ c : Call, c.Raises P (s.run P calls) → c.after P (s.run P calls) = s.run P calls) :=
  ⟨TrustStore.run_extends P s calls, fun _ h => Call.after_of_raises h⟩

-- A device seen once is approved and revoked; the second revocation raises.
theorem trust_status_monotone_approve_revoke :
    let row := TrustStore.pendingRow (.ofString "a") (.ofString "k") (.ofString "n") .zero
    let seen := TrustStore.empty.run .transparent
      [.recordFirstSeen (Str.ofString "a") (Str.ofString "k") (Str.ofString "n") .zero]
    let calls := [.approve (Str.ofString "a"),
      .revokeDevice (Str.ofString "a") (Str.ofString "u") none .zero]
    let again := Call.revokeDevice (Str.ofString "a") (Str.ofString "v") none .zero
    (∃ r, (seen.run .transparent calls).devices.find? (.ofString "a") = some r ∧ row.Advances r) ∧
    again.after .transparent (seen.run .transparent calls) = seen.run .transparent calls :=
  have h := trust_status_monotone .transparent
    (TrustStore.empty.run .transparent
      [.recordFirstSeen (Str.ofString "a") (Str.ofString "k") (Str.ofString "n") .zero])
    [.approve (Str.ofString "a"), .revokeDevice (Str.ofString "a") (Str.ofString "u") none .zero]
  ⟨h.left _ _ rfl, h.right _ ⟨_, _, rfl⟩⟩
