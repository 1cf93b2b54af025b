import Peerc.Trust.Store

-- What the trust step of a handshake can raise
inductive TrustError
  | deviceRevoked (msg : Message)
  | keyChanged (msg : Message)
  | store (e : StoreError)

abbrev TrustM := EStateM TrustError TrustStore

def StoreM.lift {α : Type} (x : StoreM α) : TrustM α :=
  x.adaptExcept .store

-- `_check_and_update_trust` of core/crypto/handshake.py, for a store that is not `None`
def TrustStore.checkAndUpdateTrust (deviceId publicKeyHex peerName : Str) (now : Double) :
    TrustM TrustDecision := do
  match ← StoreM.lift (check deviceId publicKeyHex) with
  | .revoked => throw <| .deviceRevoked [.text "device ", .str deviceId, .text " is REVOKED"]
  | .keyChanged => throw <| .keyChanged [.text "device ", .str deviceId,
      .text " has CHANGED its public key (possible impersonation)"]
  | .unknown =>
    let _ ← StoreM.lift (recordFirstSeen deviceId publicKeyHex peerName now)
    return .pending
  | decision =>
    StoreM.lift (touchLastSeen deviceId now)
    return decision

-- The calls that write to a trust store
inductive Call
  | recordFirstSeen (deviceId publicKey name : Str) (now : Double)
  | touchLastSeen (deviceId : Str) (now : Double)
  | approve (deviceId : Str)
  | revokeDevice (deviceId revokedBy : Str) (reason : Option Str) (now : Double)
  | recordRotation (cert : TransitionCertificate) (now : Double)
  | checkAndUpdateTrust (deviceId publicKeyHex peerName : Str) (now : Double)

-- A call as a statement: its result is dropped, its exception is not.
def Call.exec (P : Primitives) : Call → TrustM Unit
  | recordFirstSeen d pk name now       => StoreM.lift do _ ← TrustStore.recordFirstSeen d pk name now
  | touchLastSeen d now                 => StoreM.lift (TrustStore.touchLastSeen d now)
  | approve d                           => StoreM.lift do _ ← TrustStore.approve d
  | revokeDevice d revokedBy reason now => StoreM.lift do _ ← TrustStore.revokeDevice d revokedBy reason now
  | recordRotation cert now             => StoreM.lift (TrustStore.recordRotation P cert now)
  | checkAndUpdateTrust d pk name now   => do _ ← TrustStore.checkAndUpdateTrust d pk name now

namespace TrustStore

variable {P : Primitives} {s s' : TrustStore} {d : Str} {id : DbText}

@[simp]
theorem bindText_run (id : DbText) : (bindText id.val).run s = .ok id s := by
  simp [bindText, id.property]

theorem bindText_run_error (h : ¬d.Encodable) : (bindText d).run s = .error .unicodeEncodeError s := by
  simp only [bindText, h, dite_false]
  rfl

@[simp]
theorem get_run (id : DbText) : (get id.val).run s = .ok (s.devices.find? id) s := by
  simp only [get, EStateM.run_bind, bindText_run]
  rfl

theorem get_run_error (h : ¬d.Encodable) : (get d).run s = .error .unicodeEncodeError s := by
  simp [get, bindText_run_error h]

@[simp]
theorem insertDevice_run (r : TrustedDevice) : (insertDevice r).run s =
    match s.devices.insert? r with
    | some devices => .ok () { s with devices }
    | none         => .error .integrityError s := by
  simp only [insertDevice, EStateM.run_bind]
  cases h : s.devices.insert? r <;> simp [h]

end TrustStore
