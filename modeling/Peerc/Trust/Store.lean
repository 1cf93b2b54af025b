import Mathlib.Data.List.Sort
import Peerc.Lib.Table
import Peerc.Lib.Worklist
import Peerc.Identity.Basic

-- core/trust/device.py

inductive TrustStatus
  | pending
  | trusted
  | revoked
  deriving DecidableEq

-- A `TEXT` column holds UTF-8, so a text with a surrogate cannot be stored or looked up.
abbrev DbText := { s : Str // s.Encodable }

def DbText.ofString (s : String) : DbText :=
  ⟨Str.ofString s, Str.ofString_encodable s⟩

structure TrustedDevice where
  deviceId     : DbText
  publicKey    : DbText
  name         : DbText
  firstSeen    : Double
  lastSeen     : Double
  status       : TrustStatus
  revokedBy    : Option DbText := none
  revokedAt    : Option Double := none
  revokeReason : Option DbText := none
  deriving DecidableEq

-- A row of `identity_transitions`
structure Transition where
  oldDeviceId  : DbText
  newDeviceId  : DbText
  oldPublicKey : DbText
  newPublicKey : DbText
  timestamp    : Double
  signature    : DbText
  recordedAt   : Double
  deriving DecidableEq

def Transition.key (t : Transition) : DbText × DbText :=
  (t.oldDeviceId, t.newDeviceId)

-- core/trust/store.py

inductive TrustDecision
  | unknown
  | pending
  | trusted
  | keyChanged
  | revoked
  deriving DecidableEq

@[ext]
structure TrustStore where
  devices     : Table DbText TrustedDevice TrustedDevice.deviceId
  transitions : Table (DbText × DbText) Transition Transition.key

-- `unicodeEncodeError` and `integrityError` are raised by `sqlite3` because of the values bound to a
-- statement. Failures of the database itself (a full disk, a locked file) are not modelled.
inductive StoreError
  | valueError (msg : Message)
  | rotationError (msg : Message)
  | revocationError (msg : Message)
  | unicodeEncodeError
  | integrityError

-- A raised exception does not undo the writes made before it.
abbrev StoreM := EStateM StoreError TrustStore

namespace TrustStore

def empty : TrustStore where
  devices     := .empty
  transitions := .empty

def bindText (s : Str) : StoreM DbText :=
  if h : s.Encodable then pure ⟨s, h⟩ else throw .unicodeEncodeError

def bindOptText : Option Str → StoreM (Option DbText)
  | none   => pure none
  | some s => do return some (← bindText s)

-- A NaN is bound as `NULL`, which the columns of the schema refuse.
def bindReal (x : Double) : StoreM Double :=
  if x.isNaN then throw .integrityError else pure x

def insertDevice (device : TrustedDevice) : StoreM Unit := do
  match (← getThe TrustStore).devices.insert? device with
  | some devices => modify ({ · with devices })
  | none         => throw .integrityError

def get (deviceId : Str) : StoreM (Option TrustedDevice) := do
  let id ← bindText deviceId
  return (← getThe TrustStore).devices.find? id

def check (deviceId publicKey : Str) : StoreM TrustDecision := do
  match ← get deviceId with
  | none => return .unknown
  | some device =>
    if device.publicKey.val ≠ publicKey then return .keyChanged
    if device.status = .revoked then return .revoked
    if device.status = .trusted then return .trusted
    return .pending

def recordFirstSeen (deviceId publicKey name : Str) (now : Double) :
    StoreM (Option TrustedDevice) := do
  if (← get deviceId).isSome then
    throw <| .valueError [.text "device_id ", .repr deviceId,
      .text " is already known — use check() first; record_first_seen() must not overwrite an existing entry"]
  insertDevice {
    deviceId  := ← bindText deviceId
    publicKey := ← bindText publicKey
    name      := ← bindText name
    firstSeen := now
    lastSeen  := now
    status    := .pending
  }
  get deviceId

def touchLastSeen (deviceId : Str) (now : Double) : StoreM Unit := do
  let id ← bindText deviceId
  modify fun s => { s with devices := s.devices.update id ({ · with lastSeen := now }) fun _ => rfl }

def approve (deviceId : Str) : StoreM (Option TrustedDevice) := do
  match ← get deviceId with
  | none => throw <| .valueError [.text "cannot approve unknown device_id ", .repr deviceId]
  | some device =>
    if device.status = .revoked then
      throw <| .valueError [.text "device_id ", .repr deviceId,
        .text " is REVOKED — approve() refuses to silently re-trust a revoked device"]
    let id ← bindText deviceId
    modify fun s =>
      { s with devices := s.devices.update id ({ · with status := .trusted }) fun _ => rfl }
    get deviceId

-- `_set_revoked`
def setRevoked (deviceId revokedBy : Str) (reason : Option Str) (now : Double) :
    StoreM (Option TrustedDevice) := do
  if (← get deviceId).isNone then
    throw <| .valueError [.text "cannot revoke unknown device_id ", .repr deviceId]
  let revokedBy ← bindText revokedBy
  let reason ← bindOptText reason
  let id ← bindText deviceId
  modify fun s => { s with
    devices := s.devices.update id
      ({ · with
        status       := .revoked
        revokedBy    := some revokedBy
        revokedAt    := some now
        revokeReason := reason })
      fun _ => rfl }
  get deviceId

-- The last part of `record_rotation`: only TRUSTED carries over to the new device.
def carryOver (oldDevice : Option TrustedDevice) (cert : TransitionCertificate) (now : Double) :
    StoreM Unit := do
  match oldDevice with
  | none => pure ()
  | some oldDevice =>
    if oldDevice.status = .trusted then
      match ← get cert.newDeviceId with
      | none =>
        insertDevice {
          deviceId  := ← bindText cert.newDeviceId
          publicKey := ← bindText cert.newPublicKey
          name      := oldDevice.name
          firstSeen := now
          lastSeen  := now
          status    := .trusted
        }
      | some existingNew =>
        if existingNew.status = .pending then
          let id ← bindText cert.newDeviceId
          modify fun s => { s with
            devices := s.devices.update id ({ · with status := .trusted, lastSeen := now })
              fun _ => rfl }

def recordRotation (P : Primitives) (cert : TransitionCertificate) (now : Double) : StoreM Unit := do
  if !verifyTransitionCertificate P cert then
    throw <| .rotationError [.text "TransitionCertificate signature is invalid for rotation ",
      .repr cert.oldDeviceId, .text " → ", .repr cert.newDeviceId]
  let oldDevice ← get cert.oldDeviceId
  if oldDevice.any (·.status = .revoked) then
    throw <| .rotationError [.text "old device_id ", .repr cert.oldDeviceId,
      .text " is REVOKED — a revoked device cannot authorise a key rotation"]
  let transition : Transition := {
    oldDeviceId  := ← bindText cert.oldDeviceId
    newDeviceId  := ← bindText cert.newDeviceId
    oldPublicKey := ← bindText cert.oldPublicKey
    newPublicKey := ← bindText cert.newPublicKey
    timestamp    := ← bindReal cert.timestamp
    signature    := ← bindText cert.signature
    recordedAt   := now
  }
  modify fun s => { s with transitions := s.transitions.replace transition }
  carryOver oldDevice cert now

def successors (s : TrustStore) (id : DbText) : List DbText :=
  (s.transitions.rows.filter (·.oldDeviceId = id)).map (·.newDeviceId)

def predecessors (s : TrustStore) (id : DbText) : List DbText :=
  (s.transitions.rows.filter (·.newDeviceId = id)).map (·.oldDeviceId)

def neighbors (s : TrustStore) (id : DbText) : List DbText :=
  s.successors id ++ s.predecessors id

def transitionIds (s : TrustStore) : List DbText :=
  s.transitions.rows.flatMap fun t => [t.oldDeviceId, t.newDeviceId]

-- The timestamp of the transition that introduced a device, and zero for a device without one.
def orderKey (s : TrustStore) (id : DbText) : Double :=
  match s.transitions.rows.find? (·.newDeviceId = id) with
  | some t => t.timestamp
  | none   => .zero

-- The traversal of `get_rotation_chain` takes at most one iteration more than there are neighbors.
-- Python leaves the iteration order of the visited set open; here it is the order of the visits.
def rotationChain (s : TrustStore) (id : DbText) : List DbText :=
  let fuel := ((s.transitionIds.map fun x => (s.neighbors x).length).sum + 1)
  let visited := Worklist.explore s.neighbors fuel [id] []
  visited.insertionSort fun a b => (s.orderKey a).units ≤ (s.orderKey b).units

def getRotationChain (deviceId : Str) : StoreM (List DbText) := do
  let id ← bindText deviceId
  return (← getThe TrustStore).rotationChain id

-- The loop over the chain in `check_with_rotation`
def chainDecision (s : TrustStore) (direct : TrustDecision) :
    (chainHasTrusted : Bool) → List DbText → TrustDecision
  | chainHasTrusted, []            => if chainHasTrusted then .trusted else direct
  | chainHasTrusted, chainId :: tl =>
    match s.devices.find? chainId with
    | none => chainDecision s direct chainHasTrusted tl
    | some node =>
      if node.status = .revoked then .revoked
      else chainDecision s direct (chainHasTrusted || node.status = .trusted) tl

def checkWithRotation (deviceId publicKey : Str) : StoreM TrustDecision := do
  let direct ← check deviceId publicKey
  if direct = .keyChanged then return direct
  let chain ← getRotationChain deviceId
  return (← getThe TrustStore).chainDecision direct false chain

-- core/trust/revocation.py

def revokeDevice (deviceId revokedBy : Str) (reason : Option Str) (now : Double) :
    StoreM (Option TrustedDevice) := do
  match ← get deviceId with
  | none => throw <| .revocationError [.text "cannot revoke unknown device_id ", .repr deviceId]
  | some device =>
    if device.status = .revoked then
      throw <| .revocationError [.text "device_id ", .repr deviceId, .text " is already REVOKED (by ",
        .reprOpt (device.revokedBy.map (·.val)), .text ", reason: ",
        .reprOpt (device.revokeReason.map (·.val)), .text ")"]
    setRevoked deviceId revokedBy reason now

end TrustStore
