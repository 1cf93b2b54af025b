import Peerc.Identity.File
import Peerc.Vault.RecoveryCode

-- core/vault/crypto.py and core/vault/keyfile.py

namespace Vault

-- What the vault takes from the interpreter and from the `cryptography` package
structure Primitives where
  scrypt : Kdf
  aesGcm : KeyWrap
  floats : FloatFormat
  casing : Casing

inductive Failure
  | weakPassphrase (msg : Message)
  | vaultExists (msg : Message)
  | wrongSecret (msg : Message)
  | recoveryCode (e : RecoveryCodeError)
  | unicodeEncodeError
  | fileNotFound
  | loads (e : Json.LoadsError)
  | keyError (key : Text)
  | typeError
  | valueError

def minPassphraseLen : Nat := 8

def validatePassphrase (passphrase : Str) (deviceName : Option Str) : Except Failure Unit :=
  if passphrase = [] then
    .error <| .weakPassphrase [.text "passphrase cannot be empty"]
  else if passphrase.length < minPassphraseLen then
    .error <| .weakPassphrase [.text "passphrase must be at least ", .int minPassphraseLen, .text " characters"]
  else if deviceName = some passphrase then
    .error <| .weakPassphrase [.text "passphrase must not be the same as the device's display name"]
  else .ok ()

-- A file that is read may have `null` for any of the bytes, and any value for the rest.
structure VaultKeyfile where
  version                   : Json
  kdf                       : Json
  kdfParams                 : Json
  passphraseSalt            : Option Bytes
  wrappedDekPassphrase      : Option Bytes
  wrappedDekPassphraseNonce : Option Bytes
  recoverySalt              : Option Bytes
  wrappedDekRecovery        : Option Bytes
  wrappedDekRecoveryNonce   : Option Bytes
  createdAt                 : Json
  criticalKeySalt           : Option Bytes := none
  criticalKeyVerifierSalt   : Option Bytes := none

namespace VaultKeyfile

def b64 : Option Bytes → Json
  | none   => .null
  | some b => .str (Base64.encodeText b)

def toJsonDict (k : VaultKeyfile) : List (Text × Json) := [
  (.ofString "version",                      k.version),
  (.ofString "kdf",                          k.kdf),
  (.ofString "kdf_params",                   k.kdfParams),
  (.ofString "passphrase_salt",              b64 k.passphraseSalt),
  (.ofString "wrapped_dek_passphrase",       b64 k.wrappedDekPassphrase),
  (.ofString "wrapped_dek_passphrase_nonce", b64 k.wrappedDekPassphraseNonce),
  (.ofString "recovery_salt",                b64 k.recoverySalt),
  (.ofString "wrapped_dek_recovery",         b64 k.wrappedDekRecovery),
  (.ofString "wrapped_dek_recovery_nonce",   b64 k.wrappedDekRecoveryNonce),
  (.ofString "critical_key_salt",            b64 k.criticalKeySalt),
  (.ofString "critical_key_verifier_salt",   b64 k.criticalKeyVerifierSalt),
  (.ofString "created_at",                   k.createdAt)
]

-- `base64.b64decode` takes a `str`, and raises `ValueError` for one that it cannot decode.
def unb64 : Json → Except Failure (Option Bytes)
  | .null  => .ok none
  | .str s =>
    match Base64.decode s.val with
    | some b => .ok (some b)
    | none   => .error .valueError
  | _      => .error .typeError

-- `d[key]`
def item (d : Json) (key : String) : Except Failure Json :=
  match d with
  | .obj _ =>
    match d.get? (.ofString key) with
    | some v => .ok v
    | none   => .error (.keyError (.ofString key))
  | _      => .error .typeError

def fromJsonDict (d : Json) : Except Failure VaultKeyfile := do
  return {
    version                   := ← item d "version"
    kdf                       := ← item d "kdf"
    kdfParams                 := ← item d "kdf_params"
    passphraseSalt            := ← unb64 (← item d "passphrase_salt")
    wrappedDekPassphrase      := ← unb64 (← item d "wrapped_dek_passphrase")
    wrappedDekPassphraseNonce := ← unb64 (← item d "wrapped_dek_passphrase_nonce")
    recoverySalt              := ← unb64 (← item d "recovery_salt")
    wrappedDekRecovery        := ← unb64 (← item d "wrapped_dek_recovery")
    wrappedDekRecoveryNonce   := ← unb64 (← item d "wrapped_dek_recovery_nonce")
    criticalKeySalt           := ← unb64 ((d.get? (.ofString "critical_key_salt")).getD .null)
    criticalKeyVerifierSalt   := ← unb64 ((d.get? (.ofString "critical_key_verifier_salt")).getD .null)
    createdAt                 := ← item d "created_at"
  }

end VaultKeyfile

-- The texts of the files at `path` and at `path + ".tmp"`
structure Disk where
  file : Option Str := none
  tmp  : Option Str := none

inductive DiskStep
  | truncate
  | write (c : CodePoint)
  | replace

-- `os.replace` is atomic.
def Disk.apply (d : Disk) : DiskStep → Disk
  | .truncate => { d with tmp := some [] }
  | .write c  => { d with tmp := d.tmp.map (· ++ [c]) }
  | .replace  => ⟨d.tmp, none⟩

abbrev DiskM := EStateM Failure (Journal Disk DiskStep)

open Journal

variable (V : Primitives)

-- `makedirs` changes nothing that is stored here.
def saveVaultKeyfile (k : VaultKeyfile) : DiskM Unit := do
  perform Disk.apply .truncate
  match Json.dumpsIndent V.floats 0 (.obj k.toJsonDict) with
  | none      => throw .valueError
  | some text =>
    performAll Disk.apply (text.map .write)
    perform Disk.apply .replace

def loadVaultKeyfile (d : Disk) : Except Failure VaultKeyfile :=
  match d.file with
  | none      => .error .fileNotFound
  | some text =>
    match Json.loads V.floats text with
    | .error e => .error (.loads e)
    | .ok v    => VaultKeyfile.fromJsonDict v

-- `secret.encode("utf-8")`
def encode (secret : Str) : Except Failure Bytes :=
  match secret.encodeUtf8 with
  | some b => .ok b
  | none   => .error .unicodeEncodeError

-- The library takes bytes only.
def bytes : Option Bytes → Except Failure Bytes
  | some b => .ok b
  | none   => .error .typeError

-- The key has the length that AES-256 needs.
def deriveKek (secret salt : Bytes) : Bytes :=
  V.scrypt.derive secret salt

-- `nonce` are the bytes that are drawn.
def wrapDek (kek dek nonce : Bytes) : Bytes × Bytes :=
  (V.aesGcm.encrypt kek nonce dek, nonce)

def unwrapDek (kek ciphertext nonce : Bytes) : Except Failure Bytes :=
  match V.aesGcm.decrypt kek nonce ciphertext with
  | some dek => .ok dek
  | none     => .error <| .wrongSecret [.text "wrong passphrase/recovery code, or corrupted vault keyfile"]

-- What `create_vault` draws: the key, the bytes of the recovery code, the salts and the nonces
structure Draws where
  dek             : Bytes
  recovery        : Bytes
  passphraseSalt  : Bytes
  passphraseNonce : Bytes
  recoverySalt    : Bytes
  recoveryNonce   : Bytes
  recovery_length : recovery.length = recoveryCodeBytes

-- `SCRYPT_N`, `SCRYPT_R` and `SCRYPT_P`
def scryptParams : Json :=
  .obj [(.ofString "n", .int 131072), (.ofString "r", .int 8), (.ofString "p", .int 1)]

def vaultSchemaVersion : Int := 1

def createVault (path passphrase : Str) (deviceName : Option Str) (draws : Draws) (now : Clock) :
    DiskM (VaultKeyfile × Str) := do
  if (← get).storage.file.isSome then
    throw <| .vaultExists [.text "a vault keyfile already exists at ", .str path]
  else
    liftM <| validatePassphrase passphrase deviceName
    let recoveryCode := generateRecoveryCode draws.recovery
    let recoveryRaw ← liftM <| (normalizeRecoveryCode V.casing recoveryCode).mapError Failure.recoveryCode
    let secret ← liftM <| encode passphrase
    let passphraseKek := deriveKek V secret draws.passphraseSalt
    let (wrappedDekPassphrase, wrappedDekPassphraseNonce) := wrapDek V passphraseKek draws.dek draws.passphraseNonce
    let recoveryKek := deriveKek V recoveryRaw draws.recoverySalt
    let (wrappedDekRecovery, wrappedDekRecoveryNonce) := wrapDek V recoveryKek draws.dek draws.recoveryNonce
    let keyfile : VaultKeyfile := {
      version                   := .int vaultSchemaVersion
      kdf                       := .str (.ofString "scrypt")
      kdfParams                 := scryptParams
      passphraseSalt            := some draws.passphraseSalt
      wrappedDekPassphrase      := some wrappedDekPassphrase
      wrappedDekPassphraseNonce := some wrappedDekPassphraseNonce
      recoverySalt              := some draws.recoverySalt
      wrappedDekRecovery        := some wrappedDekRecovery
      wrappedDekRecoveryNonce   := some wrappedDekRecoveryNonce
      createdAt                 := .float now.val
    }
    saveVaultKeyfile V keyfile
    return (keyfile, recoveryCode)

def unlockWithPassphrase (k : VaultKeyfile) (passphrase : Str) : Except Failure Bytes := do
  let kek := deriveKek V (← encode passphrase) (← bytes k.passphraseSalt)
  unwrapDek V kek (← bytes k.wrappedDekPassphrase) (← bytes k.wrappedDekPassphraseNonce)

def unlockWithRecoveryCode (k : VaultKeyfile) (recoveryCode : Str) : Except Failure Bytes := do
  let raw ← (normalizeRecoveryCode V.casing recoveryCode).mapError Failure.recoveryCode
  let kek := deriveKek V raw (← bytes k.recoverySalt)
  unwrapDek V kek (← bytes k.wrappedDekRecovery) (← bytes k.wrappedDekRecoveryNonce)

-- The keyfile is changed in place. `salt` and `nonce` are drawn.
def changePassphrase (oldPassphrase newPassphrase : Str) (deviceName : Option Str) (salt nonce : Bytes) :
    EStateM Failure VaultKeyfile Unit := do
  liftM <| validatePassphrase newPassphrase deviceName
  let dek ← liftM <| unlockWithPassphrase V (← get) oldPassphrase
  let newKek := deriveKek V (← liftM <| encode newPassphrase) salt
  let (newWrapped, newNonce) := wrapDek V newKek dek nonce
  modify ({ · with passphraseSalt := some salt })
  modify ({ · with wrappedDekPassphrase := some newWrapped })
  modify ({ · with wrappedDekPassphraseNonce := some newNonce })

-- A keyfile in memory, and the disk
structure State where
  keyfile : VaultKeyfile
  disk    : Disk

inductive Event
  | changePassphrase (oldPassphrase newPassphrase : Str) (deviceName : Option Str) (salt nonce : Bytes)
  | save
  -- The save ends after `n` of its steps.
  | interruptedSave (n : Nat)
  | load

def Event.after (s : State) : Event → State
  | changePassphrase old new deviceName salt nonce =>
    { s with keyfile := ((Vault.changePassphrase V old new deviceName salt nonce).run s.keyfile).state }
  | save => { s with disk := Journal.after (saveVaultKeyfile V s.keyfile) s.disk }
  | interruptedSave n =>
    { s with disk := Journal.interrupted Disk.apply (saveVaultKeyfile V s.keyfile) s.disk n }
  | load =>
    match loadVaultKeyfile V s.disk with
    | .ok keyfile => { s with keyfile }
    | .error _    => s

end Vault
