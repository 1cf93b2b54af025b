import Peerc.Vault.Keyfile
import Peerc.Vault.Theorems.RoundTrip

-- What the functions of the vault do to a keyfile and to the disk

theorem Json.dumpsIndentFields_isSome {F : FloatFormat} {level : Nat} {fields : List (Text × Json)}
    (h : ∀ kv ∈ fields, ∃ t, Json.dumpsIndent F level kv.snd = some t) :
    ∃ t, Json.dumpsIndentFields F level fields = some t := by
  induction fields
  case nil => exact ⟨[], by rw [Json.dumpsIndentFields]⟩
  case cons kv fields hi =>
    obtain ⟨k, v⟩ := kv
    obtain ⟨hv, h⟩ := List.forall_mem_cons.mp h
    obtain ⟨t, hv⟩ := hv
    obtain ⟨ts, hts⟩ := hi h
    cases fields
    case nil => simp [Json.dumpsIndentFields, hv]
    case cons kv fields => simp [Json.dumpsIndentFields, hv, hts]

namespace Vault

open Journal

variable {V : Primitives} {k k' : VaultKeyfile} {dek raw : Bytes} {p q : Str} {d : Disk} {text : Str}

namespace VaultKeyfile

-- The fields that are not bytes are the ones of `create_vault`.
structure Plain (k : VaultKeyfile) : Prop where
  version   : k.version = .int vaultSchemaVersion
  kdf       : k.kdf = .str (.ofString "scrypt")
  kdfParams : k.kdfParams = scryptParams
  createdAt : ∃ now : Clock, k.createdAt = .float now.val

theorem unb64_b64 (b : Option Bytes) : unb64 (b64 b) = .ok b := by
  cases b
  case none => rfl
  case some b => simp only [b64, unb64, Base64.encodeText, Base64.decode_encode]

theorem fromJsonDict_toJsonDict (k : VaultKeyfile) : fromJsonDict (.obj k.toJsonDict) = .ok k := by
  have hi (key : String) (v : Json) (h : (Json.obj k.toJsonDict).get? (.ofString key) = some v) :
      item (.obj k.toJsonDict) key = .ok v := by
    simp only [item, h]
  have hg (key : String) (v : Json) (h : (Json.obj k.toJsonDict).get? (.ofString key) = some v) :
      ((Json.obj k.toJsonDict).get? (.ofString key)).getD .null = v := by
    rw [h, Option.getD_some]
  rw [fromJsonDict, hi "version" k.version rfl, hi "kdf" k.kdf rfl, hi "kdf_params" k.kdfParams rfl,
    hi "passphrase_salt" (b64 k.passphraseSalt) rfl,
    hi "wrapped_dek_passphrase" (b64 k.wrappedDekPassphrase) rfl,
    hi "wrapped_dek_passphrase_nonce" (b64 k.wrappedDekPassphraseNonce) rfl,
    hi "recovery_salt" (b64 k.recoverySalt) rfl,
    hi "wrapped_dek_recovery" (b64 k.wrappedDekRecovery) rfl,
    hi "wrapped_dek_recovery_nonce" (b64 k.wrappedDekRecoveryNonce) rfl,
    hg "critical_key_salt" (b64 k.criticalKeySalt) rfl,
    hg "critical_key_verifier_salt" (b64 k.criticalKeyVerifierSalt) rfl, hi "created_at" k.createdAt rfl]
  simp only [bind, Except.bind, unb64_b64]
  rfl

theorem b64_wellFormed (b : Option Bytes) : (b64 b).WellFormed := by
  cases b <;> trivial

theorem Plain.wellFormed (h : k.Plain) : (Json.obj k.toJsonDict).WellFormed := by
  obtain ⟨hv, hk, hp, now, hc⟩ := h
  have hf : now.val.isNaN → now.val = .nan := by
    have := now.property
    simp_all [Double.isNaN, Double.isFinite]
  have hn : (k.toJsonDict.map (·.fst)).Nodup := by
    simp only [toJsonDict, List.map_cons, List.map_nil]
    decide +kernel
  refine ⟨hn, ?_⟩
  rw [toJsonDict, hv, hk, hp, hc]
  exact ⟨trivial, trivial, ⟨by decide, trivial, trivial, trivial, trivial⟩, b64_wellFormed _, b64_wellFormed _,
    b64_wellFormed _, b64_wellFormed _, b64_wellFormed _, b64_wellFormed _, b64_wellFormed _, b64_wellFormed _, hf,
    trivial⟩

theorem Plain.dumps (F : FloatFormat) (h : k.Plain) :
    ∃ text, Json.dumpsIndent F 0 (.obj k.toJsonDict) = some text := by
  obtain ⟨hv, hk, hp, now, hc⟩ := h
  have hb (b : Option Bytes) : ∃ t, Json.dumpsIndent F 1 (b64 b) = some t := by
    cases b <;> exact ⟨_, rfl⟩
  obtain ⟨ts, hts⟩ : ∃ ts, Json.dumpsIndentFields F 1 k.toJsonDict = some ts := by
    refine Json.dumpsIndentFields_isSome ?_
    simp only [toJsonDict, List.forall_mem_cons, hb, hv, hk, hp, hc, true_and]
    exact ⟨⟨_, rfl⟩, ⟨_, rfl⟩, ⟨_, rfl⟩, ⟨_, rfl⟩, nofun⟩
  simp [Json.dumpsIndent, hts]

end VaultKeyfile

-- The wrapped copies

def wrongSecretError : Failure :=
  .wrongSecret [.text "wrong passphrase/recovery code, or corrupted vault keyfile"]

def Wrapped (V : Primitives) (secret dek : Bytes) (salt ciphertext nonce : Option Bytes) : Prop :=
  ∃ s n, salt = some s ∧ nonce = some n ∧ ciphertext = some (wrapDek V (deriveKek V secret s) dek n).fst

theorem Wrapped.unlock {secret secret' : Bytes} {salt ciphertext nonce : Option Bytes}
    (h : Wrapped V secret dek salt ciphertext nonce) :
    (do unwrapDek V (deriveKek V secret' (← bytes salt)) (← bytes ciphertext) (← bytes nonce)) =
      if secret' = secret then .ok dek else .error wrongSecretError := by
  obtain ⟨s, n, rfl, rfl, rfl⟩ := h
  change unwrapDek V (deriveKek V secret' s) (wrapDek V (deriveKek V secret s) dek n).fst n = _
  by_cases hs : secret' = secret
  case pos => rw [if_pos hs, hs, unwrapDek, wrapDek, V.aesGcm.decrypt_encrypt]
  case neg =>
    rw [if_neg hs, unwrapDek, wrapDek]
    cases hd : V.aesGcm.decrypt (deriveKek V secret' s) n (V.aesGcm.encrypt (deriveKek V secret s) n dek)
    case none => rfl
    case some => exact (hs (V.scrypt.derive_inj (V.aesGcm.key_of_decrypt hd))).elim

-- The keyfile has two copies of the key: one for the passphrase, and one for the recovery code.
structure Wraps (V : Primitives) (k : VaultKeyfile) (dek raw : Bytes) (p : Str) : Prop extends k.Plain where
  passphrase : ∃ secret, p.encodeUtf8 = some secret ∧
    Wrapped V secret dek k.passphraseSalt k.wrappedDekPassphrase k.wrappedDekPassphraseNonce
  recovery   : Wrapped V raw dek k.recoverySalt k.wrappedDekRecovery k.wrappedDekRecoveryNonce

namespace Wraps

theorem encodable (h : Wraps V k dek raw p) : p.Encodable := by
  obtain ⟨secret, hs, -⟩ := h.passphrase
  exact (Str.encodeUtf8_eq_some.mp hs).left

theorem unlockWithPassphrase (h : Wraps V k dek raw p) (q : Str) : unlockWithPassphrase V k q =
    if q.Encodable then if q = p then .ok dek else .error wrongSecretError else .error .unicodeEncodeError := by
  obtain ⟨secret, hs, hw⟩ := h.passphrase
  by_cases hq : q.Encodable
  case neg =>
    have he : encode q = .error .unicodeEncodeError := by simp only [encode, Str.encodeUtf8, if_neg hq]
    rw [if_neg hq, Vault.unlockWithPassphrase, he]
    rfl
  case pos =>
    obtain ⟨secret', hs'⟩ : ∃ b, q.encodeUtf8 = some b := ⟨_, Str.encodeUtf8_eq_some.mpr ⟨hq, rfl⟩⟩
    have he : encode q = .ok secret' := by simp only [encode, hs']
    have hu : Vault.unlockWithPassphrase V k q = if secret' = secret then .ok dek else .error wrongSecretError := by
      rw [Vault.unlockWithPassphrase, he]
      exact hw.unlock
    have hiff : secret' = secret ↔ q = p := by
      constructor
      · rintro rfl
        exact Str.encodeUtf8_inj hs' hs
      · rintro rfl
        exact Option.some.inj (hs'.symm.trans hs)
    rw [hu, if_pos hq]
    simp only [hiff]

theorem unlockWithPassphrase_eq_ok (h : Wraps V k dek raw p) {dek' : Bytes} :
    Vault.unlockWithPassphrase V k q = .ok dek' ↔ q = p ∧ dek' = dek := by
  rw [h.unlockWithPassphrase]
  constructor
  · intro hq
    split_ifs at hq with he hp
    · exact ⟨hp, (Except.ok.inj hq).symm⟩
  · rintro ⟨rfl, rfl⟩
    rw [if_pos h.encodable, if_pos rfl]

theorem unlockWithRecoveryCode (h : Wraps V k dek raw p) (hl : raw.length = recoveryCodeBytes) :
    unlockWithRecoveryCode V k (generateRecoveryCode raw) = .ok dek := by
  rw [Vault.unlockWithRecoveryCode, normalizeRecoveryCode_of_renders hl (.refl _)]
  exact h.recovery.unlock.trans (if_pos rfl)

end Wraps

-- A new passphrase that is not refused
structure Acceptable (p : Str) (deviceName : Option Str) : Prop where
  length     : minPassphraseLen ≤ p.length
  deviceName : deviceName ≠ some p

theorem validatePassphrase_eq_ok {deviceName : Option Str} :
    validatePassphrase p deviceName = .ok () ↔ Acceptable p deviceName := by
  rw [validatePassphrase]
  by_cases hn : p = []
  case pos =>
    rw [if_pos hn]
    exact iff_of_false nofun fun h => absurd h.length (by rw [hn]; decide)
  by_cases hl : p.length < minPassphraseLen
  case pos =>
    rw [if_neg hn, if_pos hl]
    exact iff_of_false nofun fun h => absurd h.length (Nat.not_le.mpr hl)
  by_cases hd : deviceName = some p
  case pos =>
    rw [if_neg hn, if_neg hl, if_pos hd]
    exact iff_of_false nofun fun h => h.deviceName hd
  rw [if_neg hn, if_neg hl, if_neg hd]
  exact iff_of_true rfl ⟨Nat.not_lt.mp hl, hd⟩

section Change

variable {old new : Str} {deviceName : Option Str} {salt nonce : Bytes}

-- The call wraps the key for the new passphrase,
theorem changePassphrase_ok {secret : Bytes} (ha : Acceptable new deviceName)
    (hd : unlockWithPassphrase V k old = .ok dek) (hs : new.encodeUtf8 = some secret) :
    (changePassphrase V old new deviceName salt nonce).run k = .ok () { k with
      passphraseSalt            := some salt
      wrappedDekPassphrase      := some (wrapDek V (deriveKek V secret salt) dek nonce).fst
      wrappedDekPassphraseNonce := some nonce } := by
  simp only [changePassphrase, EStateM.run_bind, validatePassphrase_eq_ok.mpr ha, EStateM.run_liftM_ok,
    EStateM.run_get, hd, encode, hs]
  rfl

-- or it raises before it changes the keyfile.
theorem changePassphrase_error
    (h : ¬∃ dek, Acceptable new deviceName ∧ unlockWithPassphrase V k old = .ok dek ∧ new.Encodable) :
    ∃ e, (changePassphrase V old new deviceName salt nonce).run k = .error e k := by
  simp only [changePassphrase, EStateM.run_bind]
  cases hv : validatePassphrase new deviceName
  case error e => exact ⟨e, rfl⟩
  case ok =>
    simp only [EStateM.run_liftM_ok, EStateM.run_get]
    cases hu : unlockWithPassphrase V k old
    case error e => exact ⟨e, rfl⟩
    case ok dek =>
      have hn : new.encodeUtf8 = none :=
        if_neg fun hn => h ⟨dek, validatePassphrase_eq_ok.mp hv, hu, hn⟩
      simp only [EStateM.run_liftM_ok, encode, hn]
      exact ⟨_, rfl⟩

theorem Wraps.change (h : Wraps V k dek raw p) {secret : Bytes} (hs : new.encodeUtf8 = some secret) :
    Wraps V { k with
        passphraseSalt            := some salt
        wrappedDekPassphrase      := some (wrapDek V (deriveKek V secret salt) dek nonce).fst
        wrappedDekPassphraseNonce := some nonce } dek raw new where
  toPlain    := ⟨h.version, h.kdf, h.kdfParams, h.createdAt⟩
  passphrase := ⟨secret, hs, salt, nonce, rfl, rfl, rfl⟩
  recovery   := h.recovery

end Change

-- The disk

def Describes (V : Primitives) (k : VaultKeyfile) (text : Str) : Prop :=
  Json.dumpsIndent V.floats 0 (.obj k.toJsonDict) = some text

def saveSteps (text : Str) : List DiskStep :=
  .truncate :: (text.map .write ++ [.replace])

theorem run_saveVaultKeyfile {j : Journal Disk DiskStep} (h : Describes V k text) :
    (saveVaultKeyfile V k).run j = .ok () (j.extend Disk.apply (saveSteps text)) := by
  have hd : Json.dumpsIndent V.floats 0 (.obj k.toJsonDict) = some text := h
  simp only [saveVaultKeyfile, EStateM.run_bind, run_perform, hd, run_performAll, extend_extend]
  rfl

theorem foldl_write (text t : Str) :
    (text.map .write).foldl Disk.apply { d with tmp := some t } = { d with tmp := some (t ++ text) } := by
  induction text generalizing t
  case nil => simp
  case cons c text hi => simp [Disk.apply, hi]

theorem foldl_saveSteps : (saveSteps text).foldl Disk.apply d = ⟨some text, none⟩ := by
  rw [saveSteps, List.foldl_cons, List.foldl_append]
  exact congrArg (List.foldl Disk.apply · [.replace]) (foldl_write text [])

-- Before its last step, a save only writes the other file.
theorem foldl_take_saveSteps {n : Nat} (hn : n ≤ text.length + 1) :
    (((saveSteps text).take n).foldl Disk.apply d).file = d.file := by
  cases n
  case zero => rfl
  case succ n =>
    have hl : n ≤ (text.map DiskStep.write).length := by simpa using hn
    rw [saveSteps, List.take_succ_cons, List.foldl_cons, List.take_append_of_le_length hl, ← List.map_take]
    have hw := congrArg Disk.file (foldl_write (d := d) (text.take n) [])
    exact hw

theorem loadVaultKeyfile_describes (hp : k.Plain) (hd : Describes V k text) (hf : d.file = some text) :
    loadVaultKeyfile V d = .ok k := by
  have hl : Json.loads V.floats text = .ok (.obj k.toJsonDict) :=
    Json.loads_renders hp.wellFormed (Json.renders_dumpsIndent _ _ _ hd)
  simp only [loadVaultKeyfile, hf, hl, k.fromJsonDict_toJsonDict]

theorem after_saveVaultKeyfile (h : Describes V k text) :
    after (saveVaultKeyfile V k) d = ⟨some text, none⟩ := by
  rw [after_eq (congrArg EStateM.Result.state (run_saveVaultKeyfile h)), foldl_saveSteps]

theorem interrupted_saveVaultKeyfile (h : Describes V k text) (n : Nat) :
    (interrupted Disk.apply (saveVaultKeyfile V k) d n).file =
      if n ≤ text.length + 1 then d.file else some text := by
  rw [interrupted_eq (congrArg EStateM.Result.state (run_saveVaultKeyfile h))]
  by_cases hn : n ≤ text.length + 1
  case pos => rw [if_pos hn, foldl_take_saveSteps hn]
  case neg =>
    have hl : (saveSteps text).length ≤ n := by
      simp only [saveSteps, List.length_cons, List.length_append, List.length_map, List.length_nil]
      omega
    rw [if_neg hn, List.take_of_length_le hl, foldl_saveSteps]

-- A new vault

def newKeyfile (V : Primitives) (draws : Draws) (now : Clock) (secret : Bytes) : VaultKeyfile where
  version                   := .int vaultSchemaVersion
  kdf                       := .str (.ofString "scrypt")
  kdfParams                 := scryptParams
  passphraseSalt            := some draws.passphraseSalt
  wrappedDekPassphrase      :=
    some (wrapDek V (deriveKek V secret draws.passphraseSalt) draws.dek draws.passphraseNonce).fst
  wrappedDekPassphraseNonce := some draws.passphraseNonce
  recoverySalt              := some draws.recoverySalt
  wrappedDekRecovery        :=
    some (wrapDek V (deriveKek V draws.recovery draws.recoverySalt) draws.dek draws.recoveryNonce).fst
  wrappedDekRecoveryNonce   := some draws.recoveryNonce
  createdAt                 := .float now.val

theorem wraps_newKeyfile {draws : Draws} {now : Clock} {secret : Bytes} (h : p.encodeUtf8 = some secret) :
    Wraps V (newKeyfile V draws now secret) draws.dek draws.recovery p where
  toPlain    := ⟨rfl, rfl, rfl, now, rfl⟩
  passphrase := ⟨secret, h, draws.passphraseSalt, draws.passphraseNonce, rfl, rfl, rfl⟩
  recovery   := ⟨draws.recoverySalt, draws.recoveryNonce, rfl, rfl, rfl⟩

section Create

variable {path : Str} {deviceName : Option Str} {draws : Draws} {now : Clock} {secret : Bytes}

theorem createVault_ok (hf : d.file = none) (ha : Acceptable p deviceName) (hs : p.encodeUtf8 = some secret)
    (hd : Describes V (newKeyfile V draws now secret) text) :
    (createVault V path p deviceName draws now).run { storage := d } =
      .ok (newKeyfile V draws now secret, generateRecoveryCode draws.recovery)
        (extend Disk.apply { storage := d } (saveSteps text)) := by
  have hn : normalizeRecoveryCode V.casing (generateRecoveryCode draws.recovery) = .ok draws.recovery :=
    normalizeRecoveryCode_of_renders draws.recovery_length (.refl _)
  have hr := run_saveVaultKeyfile (j := { storage := d }) hd
  simp only [createVault, EStateM.run_bind, EStateM.run_get, hf, Option.isSome_none, Bool.false_eq_true, if_false,
    validatePassphrase_eq_ok.mpr ha, EStateM.run_liftM_ok, hn, Except.mapError, encode, hs]
  simp only [newKeyfile, wrapDek] at hr ⊢
  rw [hr]
  rfl

theorem createVault_eq_ok {code : Str} {j : Journal Disk DiskStep}
    (h : (createVault V path p deviceName draws now).run { storage := d } = .ok (k, code) j) :
    ∃ text, code = generateRecoveryCode draws.recovery ∧ Wraps V k draws.dek draws.recovery p ∧
      Describes V k text ∧ j.storage.file = some text := by
  have hn : normalizeRecoveryCode V.casing (generateRecoveryCode draws.recovery) = .ok draws.recovery :=
    normalizeRecoveryCode_of_renders draws.recovery_length (.refl _)
  have hc := h
  simp only [createVault, EStateM.run_bind, EStateM.run_get] at hc
  cases hf : d.file
  case some text =>
    rw [hf] at hc
    cases hc
  simp only [hf, Option.isSome_none, Bool.false_eq_true, if_false, EStateM.run_bind] at hc
  cases hv : validatePassphrase p deviceName
  case error e =>
    rw [hv] at hc
    cases hc
  simp only [hv, EStateM.run_liftM_ok, hn, Except.mapError, encode] at hc
  cases hs : p.encodeUtf8
  case none =>
    rw [hs] at hc
    cases hc
  case some secret =>
    have hw : Wraps V (newKeyfile V draws now secret) draws.dek draws.recovery p := wraps_newKeyfile hs
    obtain ⟨text, hd⟩ := hw.dumps V.floats
    cases h.symm.trans (createVault_ok hf (validatePassphrase_eq_ok.mp hv) hs hd)
    refine ⟨text, rfl, hw, hd, ?_⟩
    exact congrArg Disk.file foldl_saveSteps

end Create

end Vault
