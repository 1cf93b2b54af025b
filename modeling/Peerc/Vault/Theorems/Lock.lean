import Peerc.Vault.Effect

-- The vault as a lock, whatever is called and however a save ends

namespace Vault

open Journal

-- What the lock remembers: the passphrase of the keyfile in memory, and the one of the file
structure Lock where
  current : Str
  saved   : Str

namespace Lock

inductive Step : Lock → Event → Lock → Prop
  | change {l : Lock} {new : Str} {deviceName : Option Str} {salt nonce : Bytes}
      (acceptable : Acceptable new deviceName) (encodable : new.Encodable) :
    Step l (.changePassphrase l.current new deviceName salt nonce) { l with current := new }
  | refuse {l : Lock} {old new : Str} {deviceName : Option Str} {salt nonce : Bytes}
      (refused : ¬(old = l.current ∧ Acceptable new deviceName ∧ new.Encodable)) :
    Step l (.changePassphrase old new deviceName salt nonce) l
  | save {l : Lock} : Step l .save { l with saved := l.current }
  | interrupted {l : Lock} {n : Nat} : Step l (.interruptedSave n) l
  | completed {l : Lock} {n : Nat} : Step l (.interruptedSave n) { l with saved := l.current }
  | load {l : Lock} : Step l .load { l with current := l.saved }

inductive Run (l : Lock) : List Event → Lock → Prop
  | nil : Run l [] l
  | concat {es : List Event} {e : Event} {l' l'' : Lock} (run : Run l es l') (step : Step l' e l'') :
    Run l (es ++ [e]) l''

end Lock

variable {V : Primitives} {s : State} {l : Lock} {dek raw : Bytes}

-- Both keyfiles have the key.
structure Holds (V : Primitives) (dek raw : Bytes) (s : State) (l : Lock) : Prop where
  memory : Wraps V s.keyfile dek raw l.current
  disk   : ∃ k text, s.disk.file = some text ∧ Describes V k text ∧ Wraps V k dek raw l.saved

theorem Holds.step (h : Holds V dek raw s l) (e : Event) :
    ∃ l', l.Step e l' ∧ Holds V dek raw (e.after V s) l' := by
  cases e
  case changePassphrase old new deviceName salt nonce =>
    by_cases hc : old = l.current ∧ Acceptable new deviceName ∧ new.Encodable
    case pos =>
      obtain ⟨rfl, ha, he⟩ := hc
      have hs : new.encodeUtf8 = some _ := Str.encodeUtf8_eq_some.mpr ⟨he, rfl⟩
      have hd := h.memory.unlockWithPassphrase_eq_ok.mpr ⟨rfl, rfl⟩
      refine ⟨_, .change ha he, ?_⟩
      rw [Event.after, changePassphrase_ok ha hd hs]
      exact ⟨h.memory.change hs, h.disk⟩
    case neg =>
      refine ⟨l, .refuse hc, ?_⟩
      obtain ⟨e, hr⟩ : ∃ e, (changePassphrase V old new deviceName salt nonce).run s.keyfile =
          .error e s.keyfile := by
        refine changePassphrase_error ?_
        rintro ⟨dek', ha, hd, he⟩
        exact hc ⟨(h.memory.unlockWithPassphrase_eq_ok.mp hd).left, ha, he⟩
      rw [Event.after, hr]
      exact h
  case save =>
    obtain ⟨text, hd⟩ := h.memory.dumps V.floats
    refine ⟨_, .save, h.memory, s.keyfile, text, ?_, hd, h.memory⟩
    rw [Event.after, after_saveVaultKeyfile hd]
  case interruptedSave n =>
    obtain ⟨text, hd⟩ := h.memory.dumps V.floats
    have hi := interrupted_saveVaultKeyfile (d := s.disk) hd n
    split_ifs at hi
    case pos =>
      obtain ⟨k, text', hf, hd', hw⟩ := h.disk
      exact ⟨l, .interrupted, h.memory, k, text', hi.trans hf, hd', hw⟩
    case neg => exact ⟨_, .completed, h.memory, s.keyfile, text, hi, hd, h.memory⟩
  case load =>
    obtain ⟨k, text, hf, hd, hw⟩ := h.disk
    refine ⟨_, .load, ?_⟩
    rw [Event.after, loadVaultKeyfile_describes hw.toPlain hd hf]
    exact ⟨hw, k, text, hf, hd, hw⟩

-- Over the calls, the lock knows which passphrase is the last one.
theorem Holds.run (h : Holds V dek raw s l) (events : List Event) :
    ∃ l', l.Run events l' ∧ Holds V dek raw (events.foldl (Event.after V) s) l' := by
  induction events using List.reverseRecOn
  case nil => exact ⟨l, .nil, h⟩
  case append_singleton events e hi =>
    obtain ⟨l', hr, h'⟩ := hi
    obtain ⟨l'', hs, h''⟩ := h'.step e
    refine ⟨l'', hr.concat hs, ?_⟩
    rwa [List.foldl_concat]

-- What a keyfile in memory is good for
structure Keeps (V : Primitives) (s : State) (dek : Bytes) (code current : Str) : Prop where
  recovery    : unlockWithRecoveryCode V s.keyfile code = .ok dek
  passphrase  : unlockWithPassphrase V s.keyfile current = .ok dek
  others      : ∀ p ≠ current,
    (∃ msg, unlockWithPassphrase V s.keyfile p = .error (.wrongSecret msg)) ↔ p.Encodable
  unchanged   : ∀ old new deviceName salt nonce e k,
    (changePassphrase V old new deviceName salt nonce).run s.keyfile = .error e k → k = s.keyfile
  reload      : loadVaultKeyfile V (after (saveVaultKeyfile V s.keyfile) s.disk) = .ok s.keyfile
  interrupted : ∀ n, ∃ k, loadVaultKeyfile V (interrupted Disk.apply (saveVaultKeyfile V s.keyfile) s.disk n) =
    .ok k ∧ (loadVaultKeyfile V s.disk = .ok k ∨ k = s.keyfile)

theorem Holds.keeps (h : Holds V dek raw s l) (hl : raw.length = recoveryCodeBytes) :
    Keeps V s dek (generateRecoveryCode raw) l.current where
  recovery := h.memory.unlockWithRecoveryCode hl
  passphrase := h.memory.unlockWithPassphrase_eq_ok.mpr ⟨rfl, rfl⟩
  others p hp := by
    rw [h.memory.unlockWithPassphrase, if_neg hp]
    by_cases he : p.Encodable
    case pos => exact iff_of_true ⟨_, if_pos he⟩ he
    case neg =>
      refine iff_of_false ?_ he
      rw [if_neg he]
      rintro ⟨msg, ⟨⟩⟩
  unchanged old new deviceName salt nonce e k hr := by
    by_cases hc : ∃ dek, Acceptable new deviceName ∧ unlockWithPassphrase V s.keyfile old = .ok dek ∧ new.Encodable
    case pos =>
      obtain ⟨dek, ha, hd, he⟩ := hc
      cases hr.symm.trans (changePassphrase_ok ha hd (Str.encodeUtf8_eq_some.mpr ⟨he, rfl⟩))
    case neg =>
      obtain ⟨e', he⟩ := changePassphrase_error hc
      cases hr.symm.trans he
      rfl
  reload := by
    obtain ⟨text, hd⟩ := h.memory.dumps V.floats
    rw [after_saveVaultKeyfile hd]
    exact loadVaultKeyfile_describes h.memory.toPlain hd rfl
  interrupted n := by
    obtain ⟨text, hd⟩ := h.memory.dumps V.floats
    obtain ⟨k, text', hf, hd', hw⟩ := h.disk
    have hi := interrupted_saveVaultKeyfile (d := s.disk) hd n
    split_ifs at hi
    case pos =>
      refine ⟨k, loadVaultKeyfile_describes hw.toPlain hd' (hi.trans hf), .inl ?_⟩
      exact loadVaultKeyfile_describes hw.toPlain hd' hf
    case neg => exact ⟨s.keyfile, loadVaultKeyfile_describes h.memory.toPlain hd hi, .inr rfl⟩

theorem vault_keeps_key (V : Primitives) (path passphrase : Str) (deviceName : Option Str) (draws : Draws)
    (now : Clock) (d : Disk) (k : VaultKeyfile) (code : Str) (j : Journal Disk DiskStep)
    (created : (createVault V path passphrase deviceName draws now).run { storage := d } = .ok (k, code) j)
    (events : List Event) :
    ∃ l, Lock.Run ⟨passphrase, passphrase⟩ events l ∧
      Keeps V (events.foldl (Event.after V) ⟨k, j.storage⟩) draws.dek code l.current := by
  obtain ⟨text, rfl, hw, hd, hf⟩ := createVault_eq_ok created
  have h : Holds V draws.dek draws.recovery ⟨k, j.storage⟩ ⟨passphrase, passphrase⟩ :=
    ⟨hw, k, text, hf, hd, hw⟩
  obtain ⟨l, hr, h'⟩ := h.run events
  exact ⟨l, hr, h'.keeps draws.recovery_length⟩

namespace Sample

def prims : Primitives :=
  ⟨.transparent, .transparent, .transparent, .ascii⟩

def draws : Draws :=
  ⟨[1, 2, 3], List.replicate 20 7, [4], [5], [6], [7], rfl⟩

def now : Clock :=
  ⟨.zero, Double.isFinite_zero⟩

def first : Str :=
  .ofString "first passphrase"

def second : Str :=
  .ofString "second passphrase"

theorem created : ∃ k code j, (createVault prims (.ofString "vault_keyfile.json") first none draws now).run
    { storage := {} } = .ok (k, code) j ∧ Wraps prims k draws.dek draws.recovery first := by
  have hs : first.encodeUtf8 = some _ := Str.encodeUtf8_eq_some.mpr ⟨by decide, rfl⟩
  have hw : Wraps prims (newKeyfile prims draws now _) draws.dek draws.recovery first := wraps_newKeyfile hs
  obtain ⟨text, hd⟩ := hw.dumps prims.floats
  have ha : Acceptable first none := ⟨by decide, nofun⟩
  exact ⟨_, _, _, createVault_ok rfl ha hs hd, hw⟩

end Sample

open Sample

-- After a change that is not saved, the file has the first passphrase.
theorem vault_keeps_key_unsaved : ∃ k code j,
    (createVault prims (.ofString "vault_keyfile.json") first none draws now).run { storage := {} } = .ok (k, code) j ∧
    ∃ l, Lock.Run ⟨first, first⟩ [.changePassphrase first second none [8] [9], .interruptedSave 3, .load] l ∧
      Keeps prims ([.changePassphrase first second none [8] [9], .interruptedSave 3, .load].foldl
        (Event.after prims) ⟨k, j.storage⟩) draws.dek code l.current := by
  obtain ⟨k, code, j, h, -⟩ := created
  exact ⟨k, code, j, h, vault_keeps_key prims _ _ _ _ _ _ _ _ _ h _⟩

-- A passphrase that cannot be encoded raises another exception.
theorem vault_keeps_key_surrogate : ∃ k code j,
    (createVault prims (.ofString "vault_keyfile.json") first none draws now).run { storage := {} } = .ok (k, code) j ∧
    unlockWithPassphrase prims k [0xD800] = .error .unicodeEncodeError := by
  obtain ⟨k, code, j, h, hw⟩ := created
  refine ⟨k, code, j, h, ?_⟩
  rw [hw.unlockWithPassphrase, if_neg (by decide)]

end Vault
