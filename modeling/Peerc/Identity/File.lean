import Peerc.Identity.Basic
import Peerc.Identity.KeyStore
import Peerc.Lib.Journal
import Peerc.Lib.Machine
import Peerc.Lib.Json.Indent
import Peerc.Lib.Json.Key

-- core/identity/identity_file.py, and `save_identity` of discovery.py

-- What a restart finds: the stored private keys, and the text of identity.json. The PEM text of a key
-- stands for its pair.
structure IdentityStorage where
  keys : KeyStorage DeviceKeypair := {}
  file : Option Str := none

-- A write of the key store is atomic. A file that is opened with mode "w" is empty at first, and any
-- part of the text may have arrived in it when the process stops.
inductive StorageStep
  | saveKey (store : KeyStore) (works : Bool) (key : DeviceKeypair)
  | truncate
  | write (c : CodePoint)

def IdentityStorage.apply (s : IdentityStorage) : StorageStep → IdentityStorage
  | .saveKey store works key => { s with keys := ((store.savePrivateKey works key).run s.keys).snd }
  | .truncate                => { s with file := some [] }
  | .write c                 => { s with file := s.file.map (· ++ [c]) }

-- A name that was read from the file is whatever stands there.
structure DeviceIdentity where
  keypair        : DeviceKeypair
  name           : Json
  createdAt      : Json
  storageBackend : Backend

inductive IdentityFailure
  | identityError (msg : Message)
  | certificate (e : CertificateError)
  | loads (e : Json.LoadsError)
  | attributeError
  | valueError (msg : Message)

abbrev IdentityM := EStateM IdentityFailure (Journal IdentityStorage StorageStep)

namespace IdentityFile

open Journal IdentityStorage

variable (P : Primitives) (identityFile : Str)

def deviceIdText (kp : DeviceKeypair) : Text :=
  (P.sha256 (kp.publicKeyBytes P)).hexText

-- `name or default`, of an optional `str`
def orText (name : Option Text) (default : Text) : Text :=
  (name.filter (·.val ≠ [])).getD default

-- `IDENTITY_SCHEMA_VERSION`
def schemaVersion : Int := 1

-- The metadata that `_create_new` writes, and the ones of `rotate_identity`, which name the device id
-- before the rotation as well
def publicMetadata (kp : DeviceKeypair) (name : Text) (createdAt : Clock) (rotatedFrom : Option Text) :
    List (Text × Json) :=
  [
    (.ofString "version",    .int schemaVersion),
    (.ofString "device_id",  .str (deviceIdText P kp)),
    (.ofString "public_key", .str (Base64.encodeText (kp.publicKeyBytes P))),
    (.ofString "name",       .str name),
    (.ofString "created_at", .float createdAt.val)
  ] ++ (rotatedFrom.map fun id => (.ofString "rotated_from", .str id)).toList

-- `json.load(f)`
def load (text : Str) : IdentityM Json :=
  match Json.loads P.floats text with
  | .ok v    => return v
  | .error e => throw (.loads e)

-- `meta.get(...)` is there for a `dict` only.
def fieldsOf : Json → IdentityM (List (Text × Json))
  | .obj fields => return fields
  | _           => throw .attributeError

-- `meta.get("device_id") == id`
def namesDevice (fields : List (Text × Json)) (id : Text) : Bool :=
  (((Json.obj fields).get? (.ofString "device_id")).bind Json.key?) = some (.str id)

-- `open(identity_file, "w")` and `json.dump(meta, f, indent=2)`. An integer that is too long for a text
-- cannot have been read from one.
def dump (fields : List (Text × Json)) : IdentityM Unit := do
  perform apply .truncate
  match Json.dumpsIndent P.floats 0 (.obj fields) with
  | some text => performAll apply (text.map .write)
  | none      => throw (.valueError [.exc "json.dump"])

variable (store : KeyStore) (works : Bool)

-- `_load_existing`, for the text of the file
def loadExisting (text : Str) (now : Clock) : IdentityM DeviceIdentity := do
  let data ← load P text
  let pem := ((store.loadPrivateKey works).run (← get).storage.keys).fst
  match pem with
  | none => throw <| .identityError [.text "identity file ", .repr identityFile,
      .text " exists but its private key is ",
      .text "missing from storage — the device's identity can't be proven ",
      .text "without it. If the key is genuinely gone, delete the identity ",
      .text "file to generate a fresh identity (this changes your device_id)."]
  | some keypair =>
    let fields ← fieldsOf data
    if ¬namesDevice fields (deviceIdText P keypair) then
      throw <| .identityError [.text "stored private key does not match device_id in ",
        .repr identityFile, .text " — identity file and key storage are out of sync"]
    let name := (data.get? (.ofString "name")).getD .null
    return {
      keypair
      name           := if name.truthy then name else .str (.ofString "peer")
      createdAt      := (data.get? (.ofString "created_at")).getD (.float now.val)
      storageBackend := store.backendName
    }

-- `key_store.save_private_key`
def saveKey (key : DeviceKeypair) : IdentityM Backend := do
  let backend := ((store.savePrivateKey works key).run (← get).storage.keys).fst
  perform apply (.saveKey store works key)
  return backend

-- `_create_new`, with the key pair that is generated. `makedirs` changes nothing that is stored here.
def createNew (name : Text) (keypair : DeviceKeypair) (createdAt : Clock) : IdentityM DeviceIdentity := do
  let backendUsed ← saveKey store works keypair
  dump P (publicMetadata P keypair name createdAt none)
  return ⟨keypair, .str name, .float createdAt.val, backendUsed⟩

def loadOrCreateIdentity (name : Option Text) (keypair : DeviceKeypair) (now : Clock) :
    IdentityM DeviceIdentity := do
  match (← get).storage.file with
  | some text => loadExisting P identityFile store works text now
  | none      => createNew P store works (orText name (.ofString "peer")) keypair now

-- `rotate_identity`, with the key pair that is generated. The current identity is read for its key pair
-- and its name.
def rotateIdentity (current : DeviceKeypair) (currentName : Text) (newName : Option Text)
    (newKeypair : DeviceKeypair) (certifiedAt createdAt : Clock) :
    IdentityM (DeviceIdentity × TransitionCertificate) := do
  match createTransitionCertificate P current newKeypair certifiedAt.val with
  | .error e => throw (.certificate e)
  | .ok cert =>
    let backendUsed ← saveKey store works newKeypair
    let name := orText newName currentName
    dump P (publicMetadata P newKeypair name createdAt (some (deviceIdText P current)))
    return (⟨newKeypair, .str name, .float createdAt.val, backendUsed⟩, cert)

def saveIdentity (peerId name : Text) : IdentityM Unit := do
  match (← get).storage.file with
  | none      => return
  | some text =>
    let fields ← fieldsOf (← load P text)
    if ¬namesDevice fields peerId then
      throw <| .valueError [.text "save_identity called with peer_id=", .repr peerId.val,
        .text ", but the identity file's device_id is ",
        .json (((Json.obj fields).get? (.ofString "device_id")).getD .null),
        .text " — refusing to rename what looks like a different identity"]
    dump P (Json.setItem (.ofString "name") (.str name) fields)

end IdentityFile

-- The calls that change what is stored. The key store of a call is one object, and its keyring may
-- fail during the call.
inductive IdentityCall
  | loadOrCreate (store : KeyStore) (works : Bool) (name : Option Text) (keypair : DeviceKeypair)
      (now : Clock)
  | rotate (store : KeyStore) (works : Bool) (current : DeviceKeypair) (currentName : Text)
      (newName : Option Text) (newKeypair : DeviceKeypair) (certifiedAt createdAt : Clock)
  | rename (peerId name : Text)

open IdentityFile in
def IdentityCall.exec (P : Primitives) (identityFile : Str) : IdentityCall → IdentityM Unit
  | loadOrCreate store works name kp now =>
    discard (loadOrCreateIdentity P identityFile store works name kp now)
  | rotate store works current currentName newName newKeypair certifiedAt createdAt =>
    discard (rotateIdentity P store works current currentName newName newKeypair certifiedAt createdAt)
  | rename peerId name => saveIdentity P peerId name

-- Calls one after the other, each of which comes to its end or raises
def identityMachine (P : Primitives) (identityFile : Str) : Machine IdentityStorage IdentityCall where
  Init s      := s.file = none
  step s call := some (Journal.after (call.exec P identityFile) s)
