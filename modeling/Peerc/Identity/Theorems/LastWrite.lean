import Peerc.Identity.KeyStore

namespace KeyStore

variable {κ : Type} {store : KeyStore} {works : Bool}

-- The key of the last save, or none if a delete came after it. The last call comes first.
def lastWritten : List (Call κ) → Option κ
  | []               => none
  | .save _ key :: _ => some key
  | .delete _ :: _   => none
  | .load _ :: tl    => lastWritten tl

-- The key that the calls for which the keyring worked have left in it
def keyringCopy : List (Call κ) → Option κ
  | []                  => none
  | .save true key :: _ => some key
  | .delete true :: _   => none
  | _ :: tl             => keyringCopy tl

-- The keyring worked for the last save or delete, or had no copy of another key then.
def Unshadowed : List (Call κ) → Prop
  | []                    => True
  | .load _ :: tl         => Unshadowed tl
  | .save true _ :: _     => True
  | .delete true :: _     => True
  | .save false key :: tl => ∀ copy, keyringCopy tl = some copy → copy = key
  | .delete false :: tl   => keyringCopy tl = none

-- What one call leaves

theorem exec_load (works : Bool) (s : KeyStorage κ) : ((Call.exec store (.load works)).run s).snd = s := by
  change ((store.loadPrivateKey works).run s).snd = s
  rw [loadPrivateKey_run]

theorem exec_save_works (h : store.backendName = .keyring) (key : κ) (s : KeyStorage κ) :
    ((Call.exec store (.save true key)).run s).snd = { s with keyring := some key } := by
  simp only [Call.exec, savePrivateKey, h, true_and, if_true]
  rfl

theorem exec_save_falls (h : ¬(store.backendName = .keyring ∧ works)) (key : κ) (s : KeyStorage κ) :
    ((Call.exec store (.save works key)).run s).snd = { s with plaintext := some key } := by
  simp only [Call.exec, savePrivateKey, if_neg h]
  rfl

theorem exec_delete_works (h : store.backendName = .keyring) (s : KeyStorage κ) :
    ((Call.exec store (.delete true)).run s).snd = {} := by
  simp only [Call.exec, deletePrivateKey, h, true_and, if_true]
  rfl

theorem exec_delete_falls (h : ¬(store.backendName = .keyring ∧ works)) (s : KeyStorage κ) :
    ((Call.exec store (.delete works)).run s).snd = { s with plaintext := none } := by
  simp only [Call.exec, deletePrivateKey, if_neg h]
  rfl

theorem not_works (h : store.backendName = .keyring ∧ false = true) : False :=
  Bool.false_ne_true h.right

theorem run_keyring (h : store.backendName = .keyring) (calls : List (Call κ)) :
    (store.run calls).keyring = keyringCopy calls := by
  induction calls
  case nil => rfl
  case cons call tl hi =>
    match call with
    | .load works     => simpa only [run, exec_load, keyringCopy] using hi
    | .save true key  => simp only [run, exec_save_works h, keyringCopy]
    | .save false key => simpa only [run, exec_save_falls not_works, keyringCopy] using hi
    | .delete true    => simp only [run, exec_delete_works h, keyringCopy]
    | .delete false   => simpa only [run, exec_delete_falls not_works, keyringCopy] using hi

-- The value that a load finds when the keyring works
theorem load_iff_unshadowed (h : store.backendName = .keyring) (calls : List (Call κ)) :
    (store.run calls).keyring.or (store.run calls).plaintext = lastWritten calls ↔ Unshadowed calls := by
  induction calls
  case nil => simp [run, lastWritten, Unshadowed]
  case cons call tl hi =>
    match call with
    | .load works     => simpa only [run, exec_load, lastWritten, Unshadowed] using hi
    | .save true key  => simp [run, exec_save_works h, lastWritten, Unshadowed]
    | .delete true    => simp [run, exec_delete_works h, lastWritten, Unshadowed]
    | .save false key =>
      simp only [run, exec_save_falls not_works, run_keyring h, lastWritten, Unshadowed]
      cases keyringCopy tl <;> simp
    | .delete false   =>
      simp only [run, exec_delete_falls not_works, run_keyring h, lastWritten, Unshadowed, Option.or_none]

-- Without a keyring there is only the file.
theorem run_plaintext (h : store.backendName ≠ .keyring) (calls : List (Call κ)) :
    (store.run calls).plaintext = lastWritten calls := by
  have hf {works : Bool} (h' : store.backendName = .keyring ∧ works) : False := h h'.left
  induction calls
  case nil => rfl
  case cons call tl hi =>
    match call with
    | .load works     => simpa only [run, exec_load, lastWritten] using hi
    | .save works key => simp only [run, exec_save_falls hf, lastWritten]
    | .delete works   => simp only [run, exec_delete_falls hf, lastWritten]

end KeyStore

open KeyStore in
theorem key_store_last_write_iff {κ : Type} (store : KeyStore) (calls : List (KeyStore.Call κ)) :
    ((store.loadPrivateKey true).run (store.run calls)).fst = lastWritten calls ↔
      store.backendName = .plaintextFile ∨ Unshadowed calls := by
  rw [loadPrivateKey_run]
  cases h : store.backendName
  case keyring => simpa using load_iff_unshadowed h calls
  case plaintextFile => simpa using run_plaintext (by simp [h]) calls

-- The keyring fails while a second key is saved, and works again when the key is loaded.
theorem key_store_last_write_stale :
    let calls : List (KeyStore.Call String) := [.save false "second", .save true "first"]
    ((KeyStore.loadPrivateKey ⟨.keyring⟩ true).run (KeyStore.run ⟨.keyring⟩ calls)).fst = some "first" ∧
      KeyStore.lastWritten calls = some "second" := by
  decide
