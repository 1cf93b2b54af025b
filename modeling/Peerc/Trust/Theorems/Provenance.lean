import Mathlib.Data.List.Induction
import Peerc.Trust.Effect

-- The bytes that a stored key stands for: the handshake writes hexadecimal and the rotation code Base64.
def TrustStore.Encodes (publicKey : Str) (raw : Bytes) : Prop :=
  Bytes.fromHex publicKey = some raw ∨ Base64.decode publicKey = some raw

-- The key a row pins
def TrustedDevice.Pins (r : TrustedDevice) (pk : Bytes) : Prop :=
  TrustStore.Encodes r.publicKey.val pk

namespace TrustStore

variable {P : Primitives} {s s' : TrustStore} {c : Call} {d : DbText}
  {signed : (publicKey message : Bytes) → Prop}

-- The old device of the certificate is TRUSTED and the key on file for it signed the certificate.
def Vouched (signed : (publicKey message : Bytes) → Prop) (s : TrustStore)
    (cert : TransitionCertificate) : Prop :=
  ∃ (old : DbText) (r : TrustedDevice) (pk payload : Bytes), old.val = cert.oldDeviceId ∧
    s.devices.find? old = some r ∧ r.status = .trusted ∧ pk.length = 32 ∧ r.Pins pk ∧
    cert.payload = some payload ∧ signed pk payload

-- How a device can have become TRUSTED in a run from the empty store
inductive Provenance (P : Primitives) (signed : (publicKey message : Bytes) → Prop)
    (calls : List Call) (d : DbText) : Prop
  | approved (pre post) (split : calls = pre ++ .approve d.val :: post)
    (returns : ¬(Call.approve d.val).Raises P (empty.run P pre))
  | rotated (pre post) {cert now} (split : calls = pre ++ .recordRotation cert now :: post)
    (returns : ¬(Call.recordRotation cert now).Raises P (empty.run P pre))
    (new : cert.newDeviceId = d.val) (vouched : Vouched signed (empty.run P pre) cert)

theorem Provenance.append {calls : List Call} (calls' : List Call)
    (h : Provenance P signed calls d) : Provenance P signed (calls ++ calls') d := by
  cases h
  case approved pre post split returns =>
    exact .approved pre (post ++ calls') (by simp [split]) returns
  case rotated pre post cert now split returns new vouched =>
    exact .rotated pre (post ++ calls') (by simp [split]) returns new vouched

-- Recording `cert` would make its new device TRUSTED.
def Confers (P : Primitives) (s : TrustStore) (cert : TransitionCertificate) (old : TrustedDevice) :
    Prop :=
  verifyTransitionCertificate P cert ∧
  (∃ id : DbText, id.val = cert.oldDeviceId ∧ s.devices.find? id = some old) ∧
  old.status = .trusted ∧
  ∀ (id : DbText) r, id.val = cert.newDeviceId → s.devices.find? id = some r → r.status = .pending

-- A certificate that confers trust carries the key on file for its old device.
def KeyOnFile (P : Primitives) (s : TrustStore) : Call → Prop
  | .recordRotation cert _ =>
    ∀ old, Confers P s cert old → ∀ pk, Base64.decode cert.oldPublicKey = some pk → old.Pins pk
  | _ => True

-- What a single call can do to make a device TRUSTED
inductive Origin (P : Primitives) (s : TrustStore) (d : DbText) : Call → Prop
  | before {c r} (found : s.devices.find? d = some r) (trusted : r.status = .trusted) : Origin P s d c
  | approve : Origin P s d (.approve d.val)
  | rotation {cert now old} (new : cert.newDeviceId = d.val) (confers : Confers P s cert old) :
    Origin P s d (.recordRotation cert now)

theorem CarryOver.origin {t : Transition} {now : Double} {devices : Devices} {r : TrustedDevice}
    (h : CarryOver s.devices t now devices) (hf : devices.find? d = some r)
    (hr : r.status = .trusted) :
    (∃ r, s.devices.find? d = some r ∧ r.status = .trusted) ∨
    (t.newDeviceId = d ∧ ∃ old, s.devices.find? t.oldDeviceId = some old ∧ old.status = .trusted ∧
      ∀ r, s.devices.find? d = some r → r.status = .pending) := by
  cases h
  case skip | keep => exact .inl ⟨r, hf, hr⟩
  case insert old trusted new insert =>
    rw [Table.find?_insert? insert] at hf
    split at hf
    case isTrue hd => exact .inr ⟨hd.symm, _, old, trusted, by simp [hd, successorRow, new]⟩
    case isFalse => exact .inl ⟨r, hf, hr⟩
  case promote old trusted new pending =>
    rw [promoted, Table.find?_update] at hf
    split at hf
    case isTrue hd =>
      refine .inr ⟨hd.symm, _, old, trusted, fun r hr => ?_⟩
      subst hd
      cases new.symm.trans hr
      exact pending
    case isFalse => exact .inl ⟨r, hf, hr⟩

theorem Effect.origin {r : TrustedDevice} (h : Effect P s c s') (hf : s'.devices.find? d = some r)
    (hr : r.status = .trusted) : Origin P s d c := by
  cases h
  case recordFirstSeen insert | checkFirstSeen insert =>
    rw [Table.find?_insert? insert] at hf
    split at hf
    case isTrue => cases hf; simp [pendingRow] at hr
    case isFalse => exact .before hf hr
  case touchLastSeen id now | checkTouch id _ _ now _ _ _ _ =>
    rw [touched, Table.find?_update] at hf
    split at hf
    case isTrue hd =>
      obtain ⟨r', hf', rfl⟩ := Option.map_eq_some_iff.mp hf
      exact .before (r := r') (hd ▸ hf') hr
    case isFalse => exact .before hf hr
  case approve id r' found status =>
    rw [approved, Table.find?_update] at hf
    split at hf
    case isTrue hd => exact hd ▸ .approve
    case isFalse => exact .before hf hr
  case revokeDevice id _ _ _ _ found status =>
    rw [revoked, Table.find?_update] at hf
    split at hf
    case isTrue =>
      obtain ⟨r, -, rfl⟩ := Option.map_eq_some_iff.mp hf
      cases hr
    case isFalse => exact .before hf hr
  case recordRotation cert t now devices verified records old carry =>
    rcases carry.origin hf hr with ⟨r, hf, hr⟩ | ⟨rfl, old, ho, htr, hp⟩
    · exact .before hf hr
    · refine .rotation records.newDeviceId.symm
        ⟨verified, ⟨_, records.oldDeviceId, ho⟩, htr, fun id r hid => ?_⟩
      cases Subtype.ext (hid.trans records.newDeviceId.symm)
      exact hp r

-- The key that verified a certificate signed it, so if that key is the one on file then the old device
-- vouches for the new one.
theorem Confers.vouched {cert : TransitionCertificate} {old : TrustedDevice}
    (hu : cert.Unforged P signed) (h : Confers P s cert old)
    (hk : ∀ pk, Base64.decode cert.oldPublicKey = some pk → old.Pins pk) :
    Vouched signed s cert := by
  obtain ⟨verified, ⟨id, hid, hf⟩, htr, -⟩ := h
  obtain ⟨pk, sig, payload, hpk, hsig, hl, hp, hv⟩ := verifyTransitionCertificate_iff.mp verified
  exact ⟨id, old, pk, payload, hid, hf, htr, hl, hk pk hpk, hp, hu pk sig payload hpk hsig hp hv⟩

end TrustStore

open TrustStore

-- In a run from the empty store in which every certificate that confers trust carries the key on file
-- for its old device, a TRUSTED device was approved or vouched for by a TRUSTED device's stored key.
theorem trusted_provenance (P : Primitives) (signed : (publicKey message : Bytes) → Prop)
    (calls : List Call) (hu : ∀ cert now, .recordRotation cert now ∈ calls → cert.Unforged P signed)
    (hk : ∀ pre c post, calls = pre ++ c :: post → KeyOnFile P (empty.run P pre) c)
    (d : DbText) (r : TrustedDevice) (hf : (empty.run P calls).devices.find? d = some r)
    (hr : r.status = .trusted) : Provenance P signed calls d := by
  -- The run is taken apart from its end, so that the state before the last call is a shorter run.
  induction calls using List.reverseRecOn generalizing r
  case nil => cases hf
  case append_singleton calls c hi =>
    have hi' (r) (hf : (empty.run P calls).devices.find? d = some r) (hr : r.status = .trusted) :
        Provenance P signed (calls ++ [c]) d :=
      .append [c] <| hi (fun cert now hm => hu cert now (List.mem_append_left _ hm))
        (fun pre c' post hs => hk pre c' (post ++ [c]) (by simp [hs])) r hf hr
    rw [run_append] at hf
    by_cases hc : c.Raises P (empty.run P calls)
    · rw [run_cons, Call.after_of_raises hc] at hf
      exact hi' r hf hr
    · cases (Call.effect_of_returns hc).origin hf hr
      case before hf hr => exact hi' _ hf hr
      case approve => exact .approved calls [] rfl hc
      case rotation cert now old new confers =>
        have hv := confers.vouched (hu cert now (by simp)) <| hk calls _ [] rfl old confers
        exact .rotated calls [] rfl hc new hv

namespace Provenance

-- Device "a" is seen with one key and approved. Then a certificate that names "a" as its old device is
-- recorded, which carries and is signed with a key of the presenter's choice.

def storedKey : Bytes := List.replicate 32 1

def otherKey : Bytes := List.replicate 32 2

def certificate (key : Bytes) : TransitionCertificate :=
  .signedWith key (Str.ofString "a") (Str.ofString "m") (Str.ofString "x")

def approvals : List Call := [
  .recordFirstSeen (Str.ofString "a") storedKey.hex (Str.ofString "n") .zero,
  .approve (Str.ofString "a")
]

def rotationRun (key : Bytes) : List Call :=
  approvals ++ [.recordRotation (certificate key) .zero]

theorem rotationRun_split {key : Bytes} {pre post : List Call} {cert : TransitionCertificate}
    {now : Double} (h : rotationRun key = pre ++ .recordRotation cert now :: post) :
    pre = approvals ∧ cert = certificate key := by
  rcases pre with _ | ⟨c₁, _ | ⟨c₂, _ | ⟨c₃, pre⟩⟩⟩ <;> simp [rotationRun, approvals] at h
  obtain ⟨rfl, rfl, ⟨rfl, rfl⟩, rfl⟩ := h
  exact ⟨rfl, rfl⟩

theorem rotationRun_unforged {key : Bytes}
    (hd : Base64.decode (certificate key).oldPublicKey = some key) (cert : TransitionCertificate)
    (now : Double) (hm : .recordRotation cert now ∈ rotationRun key) :
    cert.Unforged .transparent fun pk _ => pk = key := by
  intro pk _ _ hpk _ _ _
  have ⟨pre, post, hs⟩ := List.append_of_mem hm
  rw [(rotationRun_split hs).right, hd] at hpk
  exact (Option.some.inj hpk).symm

theorem approvals_key {r : TrustedDevice}
    (h : (empty.run .transparent approvals).devices.find? (.ofString "a") = some r) :
    r.publicKey.val = storedKey.hex := by
  have : ((empty.run .transparent approvals).devices.find? (.ofString "a")).map
      (·.publicKey.val) = some storedKey.hex := by decide +kernel
  simpa [h] using this

end Provenance

open Provenance

-- Somebody who holds neither the user's approval nor the stored key of "a" makes "m" TRUSTED.
theorem trusted_provenance_spliced :
    ¬∀ (P : Primitives) (signed : (publicKey message : Bytes) → Prop) (calls : List Call),
      (∀ cert now, .recordRotation cert now ∈ calls → cert.Unforged P signed) →
      ∀ (d : DbText) (r : TrustedDevice), (empty.run P calls).devices.find? d = some r →
        r.status = .trusted → Provenance P signed calls d := by
  intro h
  have hf : ((empty.run .transparent (rotationRun otherKey)).devices.find? (.ofString "m")).any
      (·.status = .trusted) := by decide +kernel
  obtain ⟨r, hf, hr⟩ := (Option.any_eq_true _ _).mp hf
  have hd : Base64.decode (certificate otherKey).oldPublicKey = some otherKey := by decide +kernel
  cases h .transparent (fun pk _ => pk = otherKey) _ (rotationRun_unforged hd) _ _ hf (by simpa using hr)
  case approved pre post split returns =>
    have hm : .approve (Str.ofString "m") ∈ rotationRun otherKey := by
      rw [split]
      exact List.mem_append_right _ List.mem_cons_self
    simp [rotationRun, approvals] at hm
    exact absurd hm (by decide)
  case rotated pre post cert now split returns new vouched =>
    obtain ⟨rfl, rfl⟩ := rotationRun_split split
    obtain ⟨old, r, pk, payload, hold, hf, -, -, hp, -, rfl⟩ := vouched
    obtain rfl : old = .ofString "a" := Subtype.ext hold
    simp only [TrustedDevice.Pins, Encodes, approvals_key hf] at hp
    exact absurd hp (by decide +kernel)

-- With the stored key itself the certificate makes "m" TRUSTED as well, and rightly so.
theorem trusted_provenance_genuine :
    Provenance .transparent (fun pk _ => pk = storedKey) (rotationRun storedKey) (.ofString "m") := by
  have hf : ((empty.run .transparent (rotationRun storedKey)).devices.find? (.ofString "m")).any
      (·.status = .trusted) := by decide +kernel
  obtain ⟨r, hf, hr⟩ := (Option.any_eq_true _ _).mp hf
  have hd : Base64.decode (certificate storedKey).oldPublicKey = some storedKey := by decide +kernel
  refine trusted_provenance .transparent _ _ (rotationRun_unforged hd) ?_ _ r hf (by simpa using hr)
  intro pre c post hs
  cases c
  case recordRotation cert now =>
    obtain ⟨rfl, rfl⟩ := rotationRun_split hs
    intro old hc pk hpk
    obtain rfl := Option.some.inj (hd.symm.trans hpk)
    obtain ⟨-, ⟨id, hid, hf⟩, -⟩ := hc
    obtain rfl : id = .ofString "a" := Subtype.ext hid
    exact .inl (approvals_key hf ▸ Bytes.fromHex_hex storedKey)
  all_goals trivial
