import Peerc.Lib.Message
import Peerc.Primitives

-- core/identity/device_identity.py

def computeDeviceId (P : Primitives) (publicKeyBytes : Bytes) : Str :=
  (P.sha256 publicKeyBytes).hex

-- The public half and the device id are derived from the private key, as the only two constructors of
-- keypairs (`generate_keypair`, `keypair_from_private_pem`) do.
structure DeviceKeypair where
  privateKey : Bytes
  deriving DecidableEq

namespace DeviceKeypair

def publicKeyBytes (kp : DeviceKeypair) (P : Primitives) : Bytes :=
  P.ed25519.publicKey kp.privateKey

def deviceId (kp : DeviceKeypair) (P : Primitives) : Str :=
  computeDeviceId P (kp.publicKeyBytes P)

def sign (kp : DeviceKeypair) (P : Primitives) (data : Bytes) : Bytes :=
  P.ed25519.sign kp.privateKey data

end DeviceKeypair

-- `Ed25519PublicKey.from_public_bytes` raises on anything but 32 bytes.
def publicKeyFromBytes (data : Bytes) : Option Bytes :=
  if data.length = 32 then some data else none

-- core/identity/rotation.py

structure TransitionCertificate where
  oldDeviceId  : Str
  oldPublicKey : Str
  newDeviceId  : Str
  newPublicKey : Str
  timestamp    : Double
  signature    : Str
  deriving DecidableEq

namespace TransitionCertificate

def rotationDomain : Bytes :=
  Bytes.ascii "peerc-key-rotation" ++ [0]

-- `_build_payload`: encoding a text with a surrogate raises.
def buildPayload (oldDeviceId newDeviceId oldPublicKey newPublicKey : Str) (timestamp : Double) :
    Option Bytes := do
  let oldId ← oldDeviceId.encodeUtf8
  let newId ← newDeviceId.encodeUtf8
  let oldKey ← oldPublicKey.encodeUtf8
  let newKey ← newPublicKey.encodeUtf8
  return rotationDomain ++ oldId ++ [0] ++ newId ++ [0] ++ oldKey ++ [0] ++ newKey ++ [0]
    ++ timestamp.pack

def payload (cert : TransitionCertificate) : Option Bytes :=
  buildPayload cert.oldDeviceId cert.newDeviceId cert.oldPublicKey cert.newPublicKey cert.timestamp

end TransitionCertificate

-- `verify_transition_certificate`: every exception on the way is caught and means `False`.
def verifyTransitionCertificate (P : Primitives) (cert : TransitionCertificate) : Bool :=
  let verdict := do
    let oldPubBytes ← Base64.decode cert.oldPublicKey
    let sigBytes ← Base64.decode cert.signature
    let oldPubKey ← publicKeyFromBytes oldPubBytes
    let payload ← cert.payload
    return P.ed25519.verify oldPubKey sigBytes payload
  verdict.getD false

-- Ed25519 is unforgeable: the signature of a certificate verifies only if the holder of the key signed
-- the payload. `signed` is what the holders of keys have signed. The assumption is about the signatures
-- that are presented, since the bits of a signature nobody made exist as well.
def TransitionCertificate.Unforged (P : Primitives) (signed : (publicKey message : Bytes) → Prop)
    (cert : TransitionCertificate) : Prop :=
  ∀ pk sig payload, Base64.decode cert.oldPublicKey = some pk →
    Base64.decode cert.signature = some sig → cert.payload = some payload →
    P.ed25519.verify pk sig payload → signed pk payload

inductive CertificateError
  | rotationError (msg : Message)
  | unicodeEncodeError

-- `create_transition_certificate`, with the clock reading `ts`
def createTransitionCertificate (P : Primitives) (oldKeypair newKeypair : DeviceKeypair)
    (ts : Double) : Except CertificateError TransitionCertificate := do
  if oldKeypair.deviceId P = newKeypair.deviceId P then
    throw <| .rotationError
      [.text "old and new keypair have the same device_id — no rotation needed"]
  let oldPub := Base64.encode (oldKeypair.publicKeyBytes P)
  let newPub := Base64.encode (newKeypair.publicKeyBytes P)
  match TransitionCertificate.buildPayload
    (oldKeypair.deviceId P) (newKeypair.deviceId P) oldPub newPub ts with
  | none => throw .unicodeEncodeError
  | some payload => return {
      oldDeviceId  := oldKeypair.deviceId P
      oldPublicKey := oldPub
      newDeviceId  := newKeypair.deviceId P
      newPublicKey := newPub
      timestamp    := ts
      signature    := Base64.encode (oldKeypair.sign P payload)
    }

theorem createTransitionCertificate_fields {P : Primitives} {old new : DeviceKeypair} {ts : Double}
    {cert : TransitionCertificate} (h : createTransitionCertificate P old new ts = .ok cert) :
    cert.oldDeviceId = old.deviceId P ∧ cert.newDeviceId = new.deviceId P ∧ cert.timestamp = ts ∧
    cert.oldPublicKey = Base64.encode (old.publicKeyBytes P) ∧
    cert.newPublicKey = Base64.encode (new.publicKeyBytes P) := by
  by_cases he : old.deviceId P = new.deviceId P
  case pos => simp [createTransitionCertificate, he, bind, Except.bind, throw, throwThe,
    MonadExceptOf.throw] at h
  case neg =>
    simp only [createTransitionCertificate, he, if_false, bind, Except.bind, pure, Except.pure] at h
    split at h
    · cases h
    · cases h
      exact ⟨rfl, rfl, rfl, rfl, rfl⟩

theorem verifyTransitionCertificate_iff {P : Primitives} {cert : TransitionCertificate} :
    verifyTransitionCertificate P cert ↔ ∃ pk sig payload,
      Base64.decode cert.oldPublicKey = some pk ∧ Base64.decode cert.signature = some sig ∧
      pk.length = 32 ∧ cert.payload = some payload ∧ P.ed25519.verify pk sig payload := by
  simp only [verifyTransitionCertificate, publicKeyFromBytes]
  generalize Base64.decode cert.oldPublicKey = oldPub
  generalize Base64.decode cert.signature = sig
  generalize cert.payload = payload
  cases oldPub <;> cases sig <;> cases payload <;> simp
  case some.some.some pk sig payload => by_cases hl : pk.length = 32 <;> simp [hl]

theorem TransitionCertificate.payload_encodable {cert : TransitionCertificate} {payload : Bytes}
    (h : cert.payload = some payload) :
    cert.oldDeviceId.Encodable ∧ cert.newDeviceId.Encodable ∧
    cert.oldPublicKey.Encodable ∧ cert.newPublicKey.Encodable := by
  simp only [TransitionCertificate.payload, buildPayload, Str.encodeUtf8] at h
  refine ⟨?_, ?_, ?_, ?_⟩ <;> (by_contra hc; simp [hc] at h)

-- With the transparent primitives: a certificate signed with `key`, whatever devices it names.
def TransitionCertificate.signedWith (key : Bytes) (oldDeviceId newDeviceId newPublicKey : Str) :
    TransitionCertificate :=
  let oldPublicKey := Base64.encode key
  let payload := buildPayload oldDeviceId newDeviceId oldPublicKey newPublicKey .zero
  {
    oldDeviceId, oldPublicKey, newDeviceId, newPublicKey
    timestamp := .zero
    signature := Base64.encode (key ++ payload.getD [])
  }
