import Mathlib.Logic.Basic

-- core/identity/key_storage.py

-- Where the private key lives: the password in the keyring, and the text of the plaintext file
@[ext]
structure KeyStorage (κ : Type) where
  keyring   : Option κ := none
  plaintext : Option κ := none

inductive Backend
  | keyring
  | plaintextFile
  deriving DecidableEq

structure KeyStore where
  backendName : Backend

namespace KeyStore

variable {κ : Type}

-- `_save_plaintext`
def savePlaintext (key : κ) : StateM (KeyStorage κ) Unit :=
  modify ({ · with plaintext := some key })

-- `_load_plaintext`
def loadPlaintext : StateM (KeyStorage κ) (Option κ) := do
  return (← get).plaintext

-- `works`: the call of the keyring does not raise `KeyringError`.
variable (store : KeyStore) (works : Bool)

def savePrivateKey (key : κ) : StateM (KeyStorage κ) Backend := do
  if store.backendName = .keyring ∧ works then
    modify ({ · with keyring := some key })
    return .keyring
  savePlaintext key
  return .plaintextFile

def loadPrivateKey : StateM (KeyStorage κ) (Option κ) := do
  if store.backendName = .keyring ∧ works then
    if let some value := (← get).keyring then
      return some value
  loadPlaintext

-- A keyring without a password raises as well, and has none afterwards either.
def deletePrivateKey : StateM (KeyStorage κ) Unit := do
  if store.backendName = .keyring ∧ works then
    modify ({ · with keyring := none })
  modify ({ · with plaintext := none })

theorem loadPrivateKey_run (s : KeyStorage κ) :
    (store.loadPrivateKey works).run s =
      (if store.backendName = .keyring ∧ works then s.keyring.or s.plaintext else s.plaintext, s) := by
  simp only [loadPrivateKey, loadPlaintext]
  split
  case isFalse => rfl
  case isTrue =>
    cases s
    case mk keyring plaintext => cases keyring <;> rfl

-- A call, and whether the keyring worked for it
inductive Call (κ : Type)
  | save (works : Bool) (key : κ)
  | load (works : Bool)
  | delete (works : Bool)

def Call.exec (store : KeyStore) : Call κ → StateM (KeyStorage κ) Unit
  | save works key => discard (store.savePrivateKey works key)
  | load works     => discard (store.loadPrivateKey works)
  | delete works   => store.deletePrivateKey works

-- What a sequence of calls leaves in an empty storage. The last call comes first.
def run : List (Call κ) → KeyStorage κ
  | []          => {}
  | call :: tl  => ((call.exec store).run (run tl)).snd

end KeyStore
