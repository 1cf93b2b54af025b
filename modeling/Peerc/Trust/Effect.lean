import Peerc.Trust.Call

-- What a call that returns does to the store. A call that raises leaves the store as it was, so the
-- step and run lemmas of the other modules are about `Effect` and never unfold the calls.

structure Transition.Records (t : Transition) (cert : TransitionCertificate) : Prop where
  oldDeviceId  : t.oldDeviceId.val = cert.oldDeviceId
  newDeviceId  : t.newDeviceId.val = cert.newDeviceId
  oldPublicKey : t.oldPublicKey.val = cert.oldPublicKey
  newPublicKey : t.newPublicKey.val = cert.newPublicKey
  timestamp    : t.timestamp = cert.timestamp
  signature    : t.signature.val = cert.signature

namespace TrustStore

abbrev Devices := Table DbText TrustedDevice TrustedDevice.deviceId

def pendingRow (id publicKey name : DbText) (now : Double) : TrustedDevice where
  deviceId  := id
  publicKey := publicKey
  name      := name
  firstSeen := now
  lastSeen  := now
  status    := .pending

def successorRow (t : Transition) (name : DbText) (now : Double) : TrustedDevice where
  deviceId  := t.newDeviceId
  publicKey := t.newPublicKey
  name      := name
  firstSeen := now
  lastSeen  := now
  status    := .trusted

-- The updates keep the key of a row.

theorem deviceId_touched (now : Double) (r : TrustedDevice) :
    { r with lastSeen := now }.deviceId = r.deviceId :=
  rfl

theorem deviceId_approved (r : TrustedDevice) : { r with status := .trusted }.deviceId = r.deviceId :=
  rfl

theorem deviceId_promoted (now : Double) (r : TrustedDevice) :
    { r with status := .trusted, lastSeen := now }.deviceId = r.deviceId :=
  rfl

def touched (s : TrustStore) (id : DbText) (now : Double) : TrustStore :=
  { s with devices := s.devices.update id ({ · with lastSeen := now }) (deviceId_touched now) }

def approved (s : TrustStore) (id : DbText) : TrustStore :=
  { s with devices := s.devices.update id ({ · with status := .trusted }) deviceId_approved }

def revoked (s : TrustStore) (id revokedBy : DbText) (reason : Option DbText) (now : Double) :
    TrustStore :=
  { s with
    devices := s.devices.update id
      ({ · with
        status       := .revoked
        revokedBy    := some revokedBy
        revokedAt    := some now
        revokeReason := reason })
      fun _ => rfl }

def promoted (devices : Devices) (id : DbText) (now : Double) : Devices :=
  devices.update id ({ · with status := .trusted, lastSeen := now }) (deviceId_promoted now)

-- How `record_rotation` carries trust from the old device of a transition to the new one
inductive CarryOver (devices : Devices) (t : Transition) (now : Double) : Devices → Prop
  | skip
    (old : ∀ r, devices.find? t.oldDeviceId = some r → r.status ≠ .trusted) :
    CarryOver devices t now devices
  | insert {r devices'}
    (old : devices.find? t.oldDeviceId = some r) (trusted : r.status = .trusted)
    (new : devices.find? t.newDeviceId = none)
    (insert : devices.insert? (successorRow t r.name now) = some devices') :
    CarryOver devices t now devices'
  | promote {r r'}
    (old : devices.find? t.oldDeviceId = some r) (trusted : r.status = .trusted)
    (new : devices.find? t.newDeviceId = some r') (pending : r'.status = .pending) :
    CarryOver devices t now (promoted devices t.newDeviceId now)
  | keep {r r'}
    (old : devices.find? t.oldDeviceId = some r) (trusted : r.status = .trusted)
    (new : devices.find? t.newDeviceId = some r') (pending : r'.status ≠ .pending) :
    CarryOver devices t now devices

inductive Effect (P : Primitives) (s : TrustStore) : Call → TrustStore → Prop
  | recordFirstSeen {id publicKey name : DbText} {now devices}
    (absent : s.devices.find? id = none)
    (insert : s.devices.insert? (pendingRow id publicKey name now) = some devices) :
    Effect P s (.recordFirstSeen id.val publicKey.val name.val now) { s with devices }
  | touchLastSeen {id : DbText} {now} :
    Effect P s (.touchLastSeen id.val now) (s.touched id now)
  | approve {id : DbText} {r}
    (found : s.devices.find? id = some r) (status : r.status ≠ .revoked) :
    Effect P s (.approve id.val) (s.approved id)
  | revokeDevice {id revokedBy : DbText} {reason : Option DbText} {now r}
    (found : s.devices.find? id = some r) (status : r.status ≠ .revoked) :
    Effect P s (.revokeDevice id.val revokedBy.val (reason.map (·.val)) now)
      (s.revoked id revokedBy reason now)
  | recordRotation {cert t now devices}
    (verified : verifyTransitionCertificate P cert) (records : t.Records cert)
    (old : ∀ r, s.devices.find? t.oldDeviceId = some r → r.status ≠ .revoked)
    (carry : CarryOver s.devices t now devices) :
    Effect P s (.recordRotation cert now) ⟨devices, s.transitions.replace t⟩
  | checkFirstSeen {id publicKey name : DbText} {now devices}
    (absent : s.devices.find? id = none)
    (insert : s.devices.insert? (pendingRow id publicKey name now) = some devices) :
    Effect P s (.checkAndUpdateTrust id.val publicKey.val name.val now) { s with devices }
  | checkTouch {id publicKey : DbText} {name now r}
    (found : s.devices.find? id = some r) (key : r.publicKey = publicKey)
    (status : r.status ≠ .revoked) :
    Effect P s (.checkAndUpdateTrust id.val publicKey.val name now) (s.touched id now)

variable {P : Primitives} {s s' : TrustStore} {id : DbText}

theorem bindText_cases (d : Str) (s : TrustStore) :
    (bindText d).run s = .error .unicodeEncodeError s ∨
    ∃ id, id.val = d ∧ (bindText d).run s = .ok id s := by
  by_cases h : d.Encodable
  case pos => exact .inr ⟨⟨d, h⟩, rfl, bindText_run ⟨d, h⟩⟩
  case neg => exact .inl <| bindText_run_error h

theorem bindOptText_cases (d : Option Str) (s : TrustStore) :
    (bindOptText d).run s = .error .unicodeEncodeError s ∨
    ∃ d', d'.map (·.val) = d ∧ (bindOptText d).run s = .ok d' s := by
  cases d
  case none => exact .inr ⟨none, rfl, rfl⟩
  case some d =>
    rcases bindText_cases d s with h | ⟨id, rfl, h⟩
    · exact .inl <| by simp only [bindOptText, EStateM.run_bind, h]
    · exact .inr ⟨some id, rfl, by simp only [bindOptText, EStateM.run_bind, h, EStateM.run_pure]⟩

theorem recordFirstSeen_run_error {pk name : Str} {now : Double} (hf : s.devices.find? id = none)
    (h : ¬(pk.Encodable ∧ name.Encodable)) :
    (recordFirstSeen id.val pk name now).run s = .error .unicodeEncodeError s := by
  by_cases hp : pk.Encodable
  case neg =>
    simp only [recordFirstSeen, EStateM.run_bind, get_run, hf, Option.isSome_none, Bool.false_eq_true,
      if_false, bindText_run, bindText_run_error hp]
  case pos =>
    have hn : ¬name.Encodable := fun hn => h ⟨hp, hn⟩
    obtain ⟨pk, rfl⟩ : ∃ id : DbText, id.val = pk := ⟨⟨pk, hp⟩, rfl⟩
    simp only [recordFirstSeen, EStateM.run_bind, get_run, hf, Option.isSome_none, Bool.false_eq_true,
      if_false, bindText_run, bindText_run_error hn]

theorem recordFirstSeen_run {pk name : DbText} {now : Double} {devices : Devices}
    (hf : s.devices.find? id = none)
    (hi : s.devices.insert? (pendingRow id pk name now) = some devices) :
    (recordFirstSeen id.val pk.val name.val now).run s =
      .ok (some (pendingRow id pk name now)) { s with devices } := by
  have hi' := hi
  simp only [pendingRow] at hi'
  have hfi : devices.find? id = some (pendingRow id pk name now) := by
    simp [Table.find?_insert? hi, pendingRow]
  simp only [recordFirstSeen, EStateM.run_bind, get_run, hf, Option.isSome_none, Bool.false_eq_true,
    if_false, bindText_run, insertDevice_run, hi', hfi]

theorem recordFirstSeen_cases (d pk name : Str) (now : Double) (s : TrustStore) :
    (∃ e, (recordFirstSeen d pk name now).run s = .error e s) ∨
    ∃ (id pk' name' : DbText) (devices : Devices), id.val = d ∧ pk'.val = pk ∧ name'.val = name ∧
      s.devices.find? id = none ∧ s.devices.insert? (pendingRow id pk' name' now) = some devices ∧
      (recordFirstSeen d pk name now).run s =
        .ok (some (pendingRow id pk' name' now)) { s with devices } := by
  rcases bindText_cases d s with hd | ⟨id, rfl, hd⟩
  · exact .inl ⟨.unicodeEncodeError, by simp only [recordFirstSeen, get, EStateM.run_bind, hd]⟩
  cases hf : s.devices.find? id
  case some r =>
    simp only [recordFirstSeen, EStateM.run_bind, get_run, hf]
    exact .inl ⟨_, rfl⟩
  case none =>
    by_cases he : pk.Encodable ∧ name.Encodable
    case neg => exact .inl ⟨_, recordFirstSeen_run_error hf he⟩
    case pos =>
      obtain ⟨pk, rfl⟩ : ∃ id : DbText, id.val = pk := ⟨⟨pk, he.left⟩, rfl⟩
      obtain ⟨name, rfl⟩ : ∃ id : DbText, id.val = name := ⟨⟨name, he.right⟩, rfl⟩
      obtain ⟨devices, hi⟩ := Table.insert?_of_find?_eq_none (r := pendingRow id pk name now) hf
      exact .inr ⟨id, pk, name, devices, rfl, rfl, rfl, hf, hi, recordFirstSeen_run hf hi⟩

theorem touchLastSeen_run {now : Double} :
    (touchLastSeen id.val now).run s = .ok () (s.touched id now) := by
  simp only [touchLastSeen, EStateM.run_bind, bindText_run]
  rfl

theorem touchLastSeen_cases (d : Str) (now : Double) (s : TrustStore) :
    (∃ e, (touchLastSeen d now).run s = .error e s) ∨
    ∃ id : DbText, id.val = d ∧ (touchLastSeen d now).run s = .ok () (s.touched id now) := by
  rcases bindText_cases d s with hd | ⟨id, rfl, hd⟩
  · exact .inl ⟨.unicodeEncodeError, by simp only [touchLastSeen, EStateM.run_bind, hd]⟩
  · exact .inr ⟨id, rfl, touchLastSeen_run⟩

theorem approve_cases (d : Str) (s : TrustStore) :
    (∃ e, (approve d).run s = .error e s) ∨
    ∃ (id : DbText) (r : TrustedDevice), id.val = d ∧
      s.devices.find? id = some r ∧ r.status ≠ .revoked ∧
      (approve d).run s = .ok ((s.approved id).devices.find? id) (s.approved id) := by
  rcases bindText_cases d s with hd | ⟨id, rfl, hd⟩
  · exact .inl ⟨.unicodeEncodeError, by simp only [approve, get, EStateM.run_bind, hd]⟩
  cases hf : s.devices.find? id
  case none =>
    simp only [approve, EStateM.run_bind, get_run, hf]
    exact .inl ⟨_, rfl⟩
  case some r =>
    by_cases hr : r.status = .revoked
    · simp only [approve, EStateM.run_bind, get_run, hf, if_pos hr]
      exact .inl ⟨_, rfl⟩
    · refine .inr ⟨id, r, rfl, hf, hr, ?_⟩
      simp only [approve, EStateM.run_bind, get_run, hf, if_neg hr, bindText_run, EStateM.run_modify]
      rfl

theorem revokeDevice_cases (d revokedBy : Str) (reason : Option Str) (now : Double)
    (s : TrustStore) :
    (∃ e, (revokeDevice d revokedBy reason now).run s = .error e s) ∨
    ∃ (id revokedBy' : DbText) (reason' : Option DbText) (r : TrustedDevice), id.val = d ∧
      revokedBy'.val = revokedBy ∧ reason'.map (·.val) = reason ∧
      s.devices.find? id = some r ∧ r.status ≠ .revoked ∧
      (revokeDevice d revokedBy reason now).run s =
        .ok ((s.revoked id revokedBy' reason' now).devices.find? id)
          (s.revoked id revokedBy' reason' now) := by
  rcases bindText_cases d s with hd | ⟨id, rfl, hd⟩
  · exact .inl ⟨.unicodeEncodeError, by simp only [revokeDevice, get, EStateM.run_bind, hd]⟩
  cases hf : s.devices.find? id
  case none =>
    simp only [revokeDevice, EStateM.run_bind, get_run, hf]
    exact .inl ⟨_, rfl⟩
  case some r =>
    by_cases hr : r.status = .revoked
    · simp only [revokeDevice, EStateM.run_bind, get_run, hf, if_pos hr]
      exact .inl ⟨_, rfl⟩
    have hs : (revokeDevice id.val revokedBy reason now).run s =
        (setRevoked id.val revokedBy reason now).run s := by
      simp only [revokeDevice, EStateM.run_bind, get_run, hf, if_neg hr]
    rw [hs]
    rcases bindText_cases revokedBy s with hb | ⟨revokedBy, rfl, hb⟩
    · exact .inl ⟨.unicodeEncodeError, by simp [setRevoked, EStateM.run_bind, hf, hb]⟩
    rcases bindOptText_cases reason s with hn | ⟨reason, rfl, hn⟩
    · exact .inl ⟨.unicodeEncodeError, by simp [setRevoked, EStateM.run_bind, hf, hn]⟩
    refine .inr ⟨id, revokedBy, reason, r, rfl, rfl, rfl, hf, hr, ?_⟩
    simp only [setRevoked, EStateM.run_bind, get_run, hf, Option.isNone_some, Bool.false_eq_true,
      if_false, bindText_run, hn, EStateM.run_modify]
    rfl

-- The answer of `check` for a device id that can be looked up
def directDecision (s : TrustStore) (id : DbText) (publicKey : Str) : TrustDecision :=
  match s.devices.find? id with
  | none   => .unknown
  | some r =>
    if r.publicKey.val ≠ publicKey then .keyChanged else
      match r.status with
      | .revoked => .revoked
      | .trusted => .trusted
      | .pending => .pending

@[simp]
theorem check_run (id : DbText) (pk : Str) :
    (check id.val pk).run s = .ok (s.directDecision id pk) s := by
  simp only [check, EStateM.run_bind, get_run, directDecision]
  cases s.devices.find? id
  case none => rfl
  case some r =>
    dsimp only
    split
    case isTrue => rfl
    case isFalse => cases r.status <;> simp

@[simp]
theorem lift_run {α : Type} (x : StoreM α) : (StoreM.lift x).run s =
    match x.run s with
    | .ok a s    => .ok a s
    | .error e s => .error (.store e) s := by
  rw [StoreM.lift, EStateM.run_adaptExcept]
  cases x.run s <;> rfl

-- The trust step of a handshake, by what the store holds for the device

theorem checkAndUpdateTrust_run_unknown {pk name : DbText} {now : Double} {devices : Devices}
    (hf : s.devices.find? id = none)
    (hi : s.devices.insert? (pendingRow id pk name now) = some devices) :
    (checkAndUpdateTrust id.val pk.val name.val now).run s = .ok .pending { s with devices } := by
  have hc : s.directDecision id pk.val = .unknown := by simp [directDecision, hf]
  simp only [checkAndUpdateTrust, EStateM.run_bind, lift_run, check_run, hc,
    recordFirstSeen_run hf hi, EStateM.run_pure]

theorem checkAndUpdateTrust_run_unstorable {pk name : Str} {now : Double}
    (hf : s.devices.find? id = none) (h : ¬(pk.Encodable ∧ name.Encodable)) :
    (checkAndUpdateTrust id.val pk name now).run s = .error (.store .unicodeEncodeError) s := by
  have hc : s.directDecision id pk = .unknown := by simp [directDecision, hf]
  simp only [checkAndUpdateTrust, EStateM.run_bind, lift_run, check_run, hc,
    recordFirstSeen_run_error hf h]

theorem checkAndUpdateTrust_run_known {r : TrustedDevice} {pk name : Str} {now : Double}
    (hf : s.devices.find? id = some r) :
    (checkAndUpdateTrust id.val pk name now).run s =
      if r.publicKey.val ≠ pk then
        .error (.keyChanged [.text "device ", .str id.val,
          .text " has CHANGED its public key (possible impersonation)"]) s
      else if r.status = .revoked then
        .error (.deviceRevoked [.text "device ", .str id.val, .text " is REVOKED"]) s
      else .ok (if r.status = .trusted then .trusted else .pending) (s.touched id now) := by
  by_cases hk : r.publicKey.val = pk
  case neg =>
    have hc : s.directDecision id pk = .keyChanged := by simp [directDecision, hf, hk]
    simp only [checkAndUpdateTrust, EStateM.run_bind, lift_run, check_run, hc, ne_eq, hk,
      not_false_eq_true, if_true]
    rfl
  case pos =>
    cases hs : r.status
    case revoked =>
      have hc : s.directDecision id pk = .revoked := by simp [directDecision, hf, hk, hs]
      simp only [checkAndUpdateTrust, EStateM.run_bind, lift_run, check_run, hc, ne_eq, hk,
        not_true_eq_false, if_false, if_true]
      rfl
    case trusted =>
      have hc : s.directDecision id pk = .trusted := by simp [directDecision, hf, hk, hs]
      simp only [checkAndUpdateTrust, EStateM.run_bind, lift_run, check_run, hc, touchLastSeen_run,
        EStateM.run_pure, ne_eq, hk, not_true_eq_false, if_false, reduceCtorEq, if_true]
    case pending =>
      have hc : s.directDecision id pk = .pending := by simp [directDecision, hf, hk, hs]
      simp only [checkAndUpdateTrust, EStateM.run_bind, lift_run, check_run, hc, touchLastSeen_run,
        EStateM.run_pure, ne_eq, hk, not_true_eq_false, if_false, reduceCtorEq]

theorem checkAndUpdateTrust_cases (d pk name : Str) (now : Double) (s : TrustStore) :
    (∃ e, (checkAndUpdateTrust d pk name now).run s = .error e s) ∨
    (∃ (id pk' name' : DbText) (devices : Devices), id.val = d ∧ pk'.val = pk ∧ name'.val = name ∧
      s.devices.find? id = none ∧ s.devices.insert? (pendingRow id pk' name' now) = some devices ∧
      (checkAndUpdateTrust d pk name now).run s = .ok .pending { s with devices }) ∨
    (∃ (id : DbText) (r : TrustedDevice), id.val = d ∧ s.devices.find? id = some r ∧
      r.publicKey.val = pk ∧ r.status ≠ .revoked ∧
      (checkAndUpdateTrust d pk name now).run s =
        .ok (if r.status = .trusted then .trusted else .pending) (s.touched id now)) := by
  rcases bindText_cases d s with hd | ⟨id, rfl, hd⟩
  · refine .inl ⟨.store .unicodeEncodeError, ?_⟩
    simp only [checkAndUpdateTrust, check, get, EStateM.run_bind, lift_run, hd]
  cases hf : s.devices.find? id
  case none =>
    by_cases he : pk.Encodable ∧ name.Encodable
    case neg => exact .inl ⟨_, checkAndUpdateTrust_run_unstorable hf he⟩
    case pos =>
      obtain ⟨pk, rfl⟩ : ∃ id : DbText, id.val = pk := ⟨⟨pk, he.left⟩, rfl⟩
      obtain ⟨name, rfl⟩ : ∃ id : DbText, id.val = name := ⟨⟨name, he.right⟩, rfl⟩
      obtain ⟨devices, hi⟩ := Table.insert?_of_find?_eq_none (r := pendingRow id pk name now) hf
      exact .inr <| .inl ⟨id, pk, name, devices, rfl, rfl, rfl, hf, hi,
        checkAndUpdateTrust_run_unknown hf hi⟩
  case some r =>
    have hrun : (checkAndUpdateTrust id.val pk name now).run s = _ := checkAndUpdateTrust_run_known hf
    by_cases hk : r.publicKey.val = pk
    case neg => exact .inl ⟨_, by rw [hrun, if_pos hk]⟩
    by_cases hs : r.status = .revoked
    case pos => exact .inl ⟨_, by rw [hrun, if_neg (not_not.mpr hk), if_pos hs]⟩
    exact .inr <| .inr ⟨id, r, rfl, hf, hk, hs, by rw [hrun, if_neg (not_not.mpr hk), if_neg hs]⟩

theorem carryOver_run {cert : TransitionCertificate} {t : Transition} {now : Double}
    (hn : t.newDeviceId.val = cert.newDeviceId) (hk : t.newPublicKey.val = cert.newPublicKey) :
    ∃ devices, CarryOver s.devices t now devices ∧
      (carryOver (s.devices.find? t.oldDeviceId) cert now).run s = .ok () { s with devices } := by
  cases ho : s.devices.find? t.oldDeviceId
  case none => exact ⟨s.devices, .skip (by simp [ho]), rfl⟩
  case some r =>
    by_cases ht : r.status = .trusted
    case neg =>
      refine ⟨s.devices, .skip (by simp_all), ?_⟩
      simp only [carryOver, if_neg ht]
      rfl
    case pos =>
      cases hf : s.devices.find? t.newDeviceId
      case none =>
        obtain ⟨devices, hi⟩ := Table.insert?_of_find?_eq_none (r := successorRow t r.name now) hf
        refine ⟨devices, .insert ho ht hf hi, ?_⟩
        simp only [successorRow] at hi
        simp only [carryOver, if_pos ht, ← hn, ← hk, EStateM.run_bind, get_run, hf, bindText_run,
          insertDevice_run, hi]
      case some r' =>
        by_cases hp : r'.status = .pending
        case pos =>
          refine ⟨_, .promote ho ht hf hp, ?_⟩
          simp only [carryOver, if_pos ht, ← hn, EStateM.run_bind, get_run, hf, if_pos hp,
            bindText_run, EStateM.run_modify]
          rfl
        case neg =>
          refine ⟨_, .keep ho ht hf hp, ?_⟩
          simp only [carryOver, if_pos ht, ← hn, EStateM.run_bind, get_run, hf, if_neg hp,
            EStateM.run_pure]

-- A certificate that verifies has only texts that can be stored.
theorem exists_records {cert : TransitionCertificate} (hv : verifyTransitionCertificate P cert)
    (now : Double) : ∃ t : Transition, t.Records cert ∧ t.recordedAt = now := by
  obtain ⟨pk, sig, payload, -, hsig, -, hp, -⟩ := verifyTransitionCertificate_iff.mp hv
  obtain ⟨he₁, he₂, he₃, he₄⟩ := TransitionCertificate.payload_encodable hp
  have he₅ := (Base64.isAscii_of_decode hsig).encodable
  exact ⟨⟨⟨_, he₁⟩, ⟨_, he₂⟩, ⟨_, he₃⟩, ⟨_, he₄⟩, cert.timestamp, ⟨_, he₅⟩, now⟩,
    ⟨rfl, rfl, rfl, rfl, rfl, rfl⟩, rfl⟩

section

variable {cert : TransitionCertificate} {t : Transition}

theorem recordRotation_run_unverified {now : Double} (hv : ¬verifyTransitionCertificate P cert) :
    ∃ e, (recordRotation P cert now).run s = .error e s := by
  simp only [recordRotation, hv]
  exact ⟨_, rfl⟩

theorem recordRotation_run_revoked {r : TrustedDevice} (hv : verifyTransitionCertificate P cert)
    (ht : t.Records cert) (hf : s.devices.find? t.oldDeviceId = some r) (hr : r.status = .revoked) :
    ∃ e, (recordRotation P cert t.recordedAt).run s = .error e s := by
  simp only [recordRotation, hv, Bool.not_true, Bool.false_eq_true, if_false, ← ht.oldDeviceId,
    EStateM.run_bind, get_run, hf, Option.any_some, hr, decide_true]
  exact ⟨_, rfl⟩

-- The old device has no row that is REVOKED.
theorem any_revoked_eq_false {old : Option TrustedDevice} (h : ∀ r, old = some r → r.status ≠ .revoked) :
    old.any (·.status = .revoked) = false := by
  cases old
  case none => rfl
  case some r => exact decide_eq_false (h r rfl)

theorem recordRotation_run_nan (hnan : cert.timestamp.isNaN) {now : Double} :
    ∃ e, (recordRotation P cert now).run s = .error e s := by
  by_cases hv : verifyTransitionCertificate P cert
  case neg => exact recordRotation_run_unverified hv
  obtain ⟨t, ht, rfl⟩ := exists_records hv now
  by_cases hrev : ∃ r, s.devices.find? t.oldDeviceId = some r ∧ r.status = .revoked
  case pos =>
    obtain ⟨r, hf, hr⟩ := hrev
    exact recordRotation_run_revoked hv ht hf hr
  case neg =>
    have hrev' := any_revoked_eq_false fun r hf hr => hrev ⟨r, hf, hr⟩
    refine ⟨.integrityError, ?_⟩
    simp only [recordRotation, hv, Bool.not_true, Bool.false_eq_true, if_false, ← ht.oldDeviceId,
      ← ht.newDeviceId, ← ht.oldPublicKey, ← ht.newPublicKey, EStateM.run_bind, get_run, hrev',
      bindText_run, bindReal, hnan]
    rfl

theorem recordRotation_run (hv : verifyTransitionCertificate P cert) (ht : t.Records cert)
    (hrev : ∀ r, s.devices.find? t.oldDeviceId = some r → r.status ≠ .revoked)
    (hnan : ¬cert.timestamp.isNaN) : ∃ devices, CarryOver s.devices t t.recordedAt devices ∧
      (recordRotation P cert t.recordedAt).run s = .ok () ⟨devices, s.transitions.replace t⟩ := by
  obtain ⟨oldId, newId, oldKey, newKey, ts, sigText, now⟩ := t
  obtain ⟨ho, hn, hok, hnk, rfl, hst⟩ := ht
  have hrev' := any_revoked_eq_false hrev
  let t : Transition := ⟨oldId, newId, oldKey, newKey, cert.timestamp, sigText, now⟩
  obtain ⟨devices, hc, hr⟩ : ∃ devices, CarryOver s.devices t now devices ∧
      (carryOver (s.devices.find? oldId) cert now).run ⟨s.devices, s.transitions.replace t⟩ =
        .ok () ⟨devices, s.transitions.replace t⟩ :=
    carryOver_run (s := ⟨s.devices, s.transitions.replace t⟩) hn hnk
  refine ⟨devices, hc, Eq.trans ?_ hr⟩
  simp only [recordRotation, hv, Bool.not_true, Bool.false_eq_true, if_false, ← ho, ← hn, ← hok, ← hnk,
    ← hst, EStateM.run_bind, get_run, hrev', bindText_run, bindReal, hnan, EStateM.run_pure,
    EStateM.run_modify]
  rfl

end

theorem recordRotation_cases (P : Primitives) (cert : TransitionCertificate) (now : Double)
    (s : TrustStore) :
    (∃ e, (recordRotation P cert now).run s = .error e s) ∨
    ∃ (t : Transition) (devices : Devices), verifyTransitionCertificate P cert ∧ t.Records cert ∧
      (∀ r, s.devices.find? t.oldDeviceId = some r → r.status ≠ .revoked) ∧
      CarryOver s.devices t now devices ∧
      (recordRotation P cert now).run s = .ok () ⟨devices, s.transitions.replace t⟩ := by
  by_cases hv : verifyTransitionCertificate P cert
  case neg => exact .inl (recordRotation_run_unverified hv)
  by_cases hnan : cert.timestamp.isNaN
  case pos => exact .inl (recordRotation_run_nan hnan)
  obtain ⟨t, ht, rfl⟩ := exists_records hv now
  by_cases hrev : ∃ r, s.devices.find? t.oldDeviceId = some r ∧ r.status = .revoked
  case pos =>
    obtain ⟨r, hf, hr⟩ := hrev
    exact .inl (recordRotation_run_revoked hv ht hf hr)
  case neg =>
    have hrev' : ∀ r, s.devices.find? t.oldDeviceId = some r → r.status ≠ .revoked :=
      fun r hf hr => hrev ⟨r, hf, hr⟩
    obtain ⟨devices, hc, hr⟩ := recordRotation_run hv ht hrev' hnan
    exact .inr ⟨t, devices, hv, ht, hrev', hc, hr⟩

end TrustStore

namespace Call

open TrustStore

variable {P : Primitives} {s s' : TrustStore} {c : Call}

-- The store after a call, whether the call returned or raised
def after (P : Primitives) (c : Call) (s : TrustStore) : TrustStore :=
  match (c.exec P).run s with
  | .ok _ s'    => s'
  | .error _ s' => s'

def Raises (P : Primitives) (c : Call) (s : TrustStore) : Prop :=
  ∃ e s', (c.exec P).run s = .error e s'

theorem exec_cases (P : Primitives) (c : Call) (s : TrustStore) :
    (∃ e, (c.exec P).run s = .error e s) ∨ (∃ s', (c.exec P).run s = .ok () s' ∧ Effect P s c s') := by
  cases c
  case recordFirstSeen d pk name now =>
    rcases recordFirstSeen_cases d pk name now s with
      ⟨e, h⟩ | ⟨id, pk, name, devices, rfl, rfl, rfl, hf, hi, h⟩
    · exact .inl ⟨.store e, by simp only [exec, lift_run, EStateM.run_bind, h]⟩
    · refine .inr ⟨_, ?_, .recordFirstSeen hf hi⟩
      simp only [exec, lift_run, EStateM.run_bind, h, EStateM.run_pure]
  case touchLastSeen d now =>
    rcases touchLastSeen_cases d now s with ⟨e, h⟩ | ⟨id, rfl, h⟩
    · exact .inl ⟨.store e, by simp only [exec, lift_run, h]⟩
    · exact .inr ⟨_, by simp only [exec, lift_run, h], .touchLastSeen⟩
  case approve d =>
    rcases approve_cases d s with ⟨e, h⟩ | ⟨id, r, rfl, hf, hr, h⟩
    · exact .inl ⟨.store e, by simp only [exec, lift_run, EStateM.run_bind, h]⟩
    · refine .inr ⟨_, ?_, .approve hf hr⟩
      simp only [exec, lift_run, EStateM.run_bind, h, EStateM.run_pure]
  case revokeDevice d revokedBy reason now =>
    rcases revokeDevice_cases d revokedBy reason now s with
      ⟨e, h⟩ | ⟨id, revokedBy, reason, r, rfl, rfl, rfl, hf, hr, h⟩
    · exact .inl ⟨.store e, by simp only [exec, lift_run, EStateM.run_bind, h]⟩
    · refine .inr ⟨_, ?_, .revokeDevice hf hr⟩
      simp only [exec, lift_run, EStateM.run_bind, h, EStateM.run_pure]
  case recordRotation cert now =>
    rcases recordRotation_cases P cert now s with ⟨e, h⟩ | ⟨t, devices, hv, ht, ho, hc, h⟩
    · exact .inl ⟨.store e, by simp only [exec, lift_run, h]⟩
    · exact .inr ⟨_, by simp only [exec, lift_run, h], .recordRotation hv ht ho hc⟩
  case checkAndUpdateTrust d pk name now =>
    rcases checkAndUpdateTrust_cases d pk name now s with
      ⟨e, h⟩ | ⟨id, pk, name, devices, rfl, rfl, rfl, hf, hi, h⟩ | ⟨id, r, rfl, hf, rfl, hr, h⟩
    · exact .inl ⟨e, by simp only [exec, EStateM.run_bind, h]⟩
    · refine .inr ⟨_, ?_, .checkFirstSeen hf hi⟩
      simp only [exec, EStateM.run_bind, h, EStateM.run_pure]
    · refine .inr ⟨_, ?_, .checkTouch hf rfl hr⟩
      simp only [exec, EStateM.run_bind, h, EStateM.run_pure]

theorem returns_of_isSome (h : ((c.exec P).run' s).isSome) : ¬c.Raises P s := by
  rintro ⟨e, s', he⟩
  delta EStateM.run' at h
  rw [he] at h
  cases h

theorem after_of_raises (h : c.Raises P s) : c.after P s = s := by
  obtain ⟨e, s', h⟩ := h
  rcases exec_cases P c s with ⟨e', h'⟩ | ⟨s'', h', -⟩
  · simp [after, h']
  · simp [h'] at h

theorem effect_of_returns (h : ¬c.Raises P s) : Effect P s c (c.after P s) := by
  rcases exec_cases P c s with ⟨e, h'⟩ | ⟨s', h', he⟩
  · exact absurd ⟨e, s, h'⟩ h
  · simpa [after, h'] using he

end Call

-- The store after a sequence of calls
def TrustStore.run (P : Primitives) (s : TrustStore) (calls : List Call) : TrustStore :=
  calls.foldl (fun s c => c.after P s) s

namespace TrustStore

variable {P : Primitives} {s : TrustStore}

@[simp]
theorem run_nil : s.run P [] = s := rfl

@[simp]
theorem run_cons {c : Call} {calls : List Call} : s.run P (c :: calls) = (c.after P s).run P calls :=
  rfl

theorem run_append {calls calls' : List Call} :
    s.run P (calls ++ calls') = (s.run P calls).run P calls' :=
  List.foldl_append

-- An invariant that every returning call preserves when `Q` holds of the call and the store before it
theorem run_induction_returns {I : TrustStore → Prop} {Q : TrustStore → Call → Prop}
    (step : ∀ {s c s'}, Effect P s c s' → ¬c.Raises P s → Q s c → I s → I s') {calls : List Call}
    (h : I s) (hq : ∀ pre c post, calls = pre ++ c :: post → Q (s.run P pre) c) :
    I (s.run P calls) := by
  induction calls generalizing s
  case nil => exact h
  case cons c calls hi =>
    rw [run_cons]
    refine hi ?_ fun pre c' post hs => hq (c :: pre) c' post (by simp [hs])
    by_cases hc : c.Raises P s
    · rwa [Call.after_of_raises hc]
    · exact step (Call.effect_of_returns hc) hc (hq [] c calls rfl) h

theorem run_induction {I : TrustStore → Prop} {Q : TrustStore → Call → Prop}
    (step : ∀ {s c s'}, Effect P s c s' → Q s c → I s → I s') {calls : List Call} (h : I s)
    (hq : ∀ pre c post, calls = pre ++ c :: post → Q (s.run P pre) c) : I (s.run P calls) :=
  run_induction_returns (I := I) (Q := Q) (fun he _ => step he) h hq

end TrustStore
