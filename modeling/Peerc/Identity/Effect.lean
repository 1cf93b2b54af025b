import Peerc.Identity.File
import Peerc.Lib.Json.Truncate

-- What the calls find and leave

namespace KeyStore

variable {κ : Type} {loader store : KeyStore} {works : Bool} {keys : KeyStorage κ}

-- A key that is saved now is the one that a working key store loads later: it goes to the keyring, or
-- to the file of a loader that has no other key in front of the file.
def Reaches (loader store : KeyStore) (works : Bool) (keys : KeyStorage κ) : Prop :=
  if store.backendName = .keyring ∧ works then loader.backendName = .keyring
  else loader.backendName = .plaintextFile ∨ keys.keyring.isNone

instance : Decidable (loader.Reaches store works keys) :=
  inferInstanceAs (Decidable (if _ ∧ _ then _ = _ else _ ∨ _ = _))

theorem Reaches.load (h : loader.Reaches store works keys) (key : κ) :
    ((loader.loadPrivateKey true).run ((store.savePrivateKey works key).run keys).snd).fst = some key := by
  rw [loadPrivateKey_run]
  by_cases hs : store.backendName = .keyring ∧ works
  case pos =>
    have hl : loader.backendName = .keyring := by simpa only [Reaches, if_pos hs] using h
    simp only [savePrivateKey, if_pos hs, hl]
    rfl
  case neg =>
    have hl : loader.backendName = .plaintextFile ∨ keys.keyring = none := by
      simpa only [Reaches, if_neg hs, Option.isNone_iff_eq_none] using h
    have hr : ((store.savePrivateKey works key).run keys).snd = { keys with plaintext := some key } := by
      simp only [savePrivateKey, if_neg hs]
      rfl
    rw [hr]
    rcases hl with hl | hl <;> simp [hl]

end KeyStore

-- The texts of a certificate are ASCII, so its payload can be encoded.
theorem createTransitionCertificate_of_ne {P : Primitives} {old new : DeviceKeypair} (ts : Double)
    (h : old.deviceId P ≠ new.deviceId P) : ∃ cert, createTransitionCertificate P old new ts = .ok cert := by
  have hid (kp : DeviceKeypair) : (kp.deviceId P).Encodable := (Bytes.hex_isAscii _).encodable
  have hpub (bs : Bytes) : (Base64.encode bs).Encodable := (Base64.encode_isAscii bs).encodable
  simp only [createTransitionCertificate, if_neg h, TransitionCertificate.buildPayload, Str.encodeUtf8,
    hid, hpub]
  exact ⟨_, rfl⟩

namespace IdentityFile

open Journal IdentityStorage

variable {P : Primitives} {identityFile : Str} {store loader : KeyStore} {works : Bool}
  {kp kp' : DeviceKeypair} {name : Text} {createdAt : Clock} {rotatedFrom : Option Text} {text : Str}
  {s : IdentityStorage} {j : Journal IdentityStorage StorageStep}

-- The metadata as a JSON value

theorem publicMetadata_wellFormed : (Json.obj (publicMetadata P kp name createdAt rotatedFrom)).WellFormed := by
  have hf : createdAt.val.isNaN → createdAt.val = .nan := by
    have := createdAt.property
    simp_all [Double.isNaN, Double.isFinite]
  refine ⟨?_, ?_⟩
  · have hk : (publicMetadata P kp name createdAt rotatedFrom).map (·.fst) =
        [.ofString "version", .ofString "device_id", .ofString "public_key", .ofString "name",
          .ofString "created_at"] ++ if rotatedFrom.isSome then [.ofString "rotated_from"] else [] := by
      cases rotatedFrom <;> rfl
    rw [hk]
    cases rotatedFrom.isSome <;> decide +kernel
  · cases rotatedFrom
    case none => exact ⟨trivial, trivial, trivial, trivial, hf, trivial⟩
    case some => exact ⟨trivial, trivial, trivial, trivial, hf, trivial, trivial⟩

theorem publicMetadata_dumps (P : Primitives) (kp : DeviceKeypair) (name : Text) (createdAt : Clock)
    (rotatedFrom : Option Text) :
    ∃ text, Json.dumpsIndent P.floats 0 (.obj (publicMetadata P kp name createdAt rotatedFrom)) =
      some text := by
  cases rotatedFrom <;> exact ⟨_, rfl⟩

theorem setItem_publicMetadata (name' : Text) :
    Json.setItem (.ofString "name") (.str name') (publicMetadata P kp name createdAt rotatedFrom) =
      publicMetadata P kp name' createdAt rotatedFrom :=
  rfl

theorem namesDevice_publicMetadata (id : Text) :
    namesDevice (publicMetadata P kp name createdAt rotatedFrom) id ↔ deviceIdText P kp = id := by
  change decide (some (Json.Key.str (deviceIdText P kp)) = some (.str id)) ↔ _
  simp

-- The text of the file is the one that a write of the metadata leaves.
def Describes (P : Primitives) (kp : DeviceKeypair) (name : Text) (createdAt : Clock)
    (rotatedFrom : Option Text) (text : Str) : Prop :=
  Json.dumpsIndent P.floats 0 (.obj (publicMetadata P kp name createdAt rotatedFrom)) = some text

theorem Describes.loads (h : Describes P kp name createdAt rotatedFrom text) :
    Json.loads P.floats text = .ok (.obj (publicMetadata P kp name createdAt rotatedFrom)) :=
  Json.loads_renders publicMetadata_wellFormed (Json.renders_dumpsIndent _ _ _ h)

theorem Describes.loads_take (h : Describes P kp name createdAt rotatedFrom text) {n : Nat}
    (hn : n < text.length) : ∃ e, Json.loads P.floats (text.take n) = .error e := by
  have hr := Json.renders_dumpsIndent _ _ _ h
  rw [← List.take_append_drop n text] at hr
  exact Json.loads_truncated publicMetadata_wellFormed hr fun he =>
    absurd (List.drop_eq_nil_iff.mp he) (Nat.not_le.mpr hn)

-- The identity that a loader builds of a key pair and the metadata
def identity (loader : KeyStore) (kp : DeviceKeypair) (name : Text) (createdAt : Clock) : DeviceIdentity where
  keypair        := kp
  name           := .str (orText (some name) (.ofString "peer"))
  createdAt      := .float createdAt.val
  storageBackend := loader.backendName

theorem str_orText (name default : Text) :
    (if (Json.str name).truthy then Json.str name else .str default) = .str (orText (some name) default) := by
  by_cases h : name.val = [] <;> simp [Json.truthy, orText, Option.filter, h]

-- A later call of `load_or_create_identity`, with a key store that works
structure Restart where
  loader  : KeyStore
  name    : Option Text
  keypair : DeviceKeypair
  now     : Clock

-- The identity that it returns
def Restart.load (r : Restart) (P : Primitives) (identityFile : Str) (s : IdentityStorage) :
    Option DeviceIdentity :=
  ((loadOrCreateIdentity P identityFile r.loader true r.name r.keypair r.now).run { storage := s }).value?

variable {r : Restart}

theorem load_describes (hf : s.file = some text) (hd : Describes P kp name createdAt rotatedFrom text)
    (hk : ((r.loader.loadPrivateKey true).run s.keys).fst = some kp') :
    r.load P identityFile s =
      if deviceIdText P kp = deviceIdText P kp' then some (identity r.loader kp' name createdAt) else none := by
  simp only [Restart.load, loadOrCreateIdentity, EStateM.run_bind, EStateM.run_get, hf, loadExisting, load,
    hd.loads, EStateM.run_pure, hk, fieldsOf, namesDevice_publicMetadata]
  by_cases h : deviceIdText P kp = deviceIdText P kp'
  case pos =>
    rw [if_neg (not_not_intro h), if_pos h, identity, ← str_orText]
    rfl
  case neg =>
    rw [if_pos h, if_neg h]
    rfl

theorem load_take {n : Nat} (hf : s.file = some (text.take n))
    (hd : Describes P kp name createdAt rotatedFrom text) (hn : n < text.length) :
    r.load P identityFile s = none := by
  have ⟨e, he⟩ := hd.loads_take hn
  simp only [Restart.load, loadOrCreateIdentity, EStateM.run_bind, EStateM.run_get, hf, loadExisting, load, he]
  rfl

-- What the calls write

theorem run_saveKey (store : KeyStore) (works : Bool) (key : DeviceKeypair)
    (j : Journal IdentityStorage StorageStep) : ∃ backend,
    (saveKey store works key).run j = .ok backend (j.extend apply [.saveKey store works key]) :=
  ⟨_, rfl⟩

-- The steps of writing a text to the file
def rewrite (text : Str) : List StorageStep :=
  .truncate :: text.map .write

theorem run_dump (h : Describes P kp name createdAt rotatedFrom text) :
    (dump P (publicMetadata P kp name createdAt rotatedFrom)).run j =
      .ok () (j.extend apply (rewrite text)) := by
  have hd : Json.dumpsIndent P.floats 0 (.obj (publicMetadata P kp name createdAt rotatedFrom)) = some text := h
  simp only [dump, EStateM.run_bind, run_perform, hd, run_performAll, extend_extend]
  rfl

theorem state_createNew (h : Describes P kp name createdAt none text) :
    ((createNew P store works name kp createdAt).run j).state =
      j.extend apply (.saveKey store works kp :: rewrite text) := by
  have ⟨_, hs⟩ := run_saveKey store works kp j
  simp only [createNew, EStateM.run_bind, hs, run_dump h, extend_extend]
  rfl

theorem state_rotateIdentity {current newKeypair : DeviceKeypair} {currentName : Text} {newName : Option Text}
    {certifiedAt : Clock} (hne : current.deviceId P ≠ newKeypair.deviceId P)
    (h : Describes P newKeypair (orText newName currentName) createdAt (some (deviceIdText P current)) text) :
    ((rotateIdentity P store works current currentName newName newKeypair certifiedAt createdAt).run j).state =
      j.extend apply (.saveKey store works newKeypair :: rewrite text) := by
  have ⟨_, hc⟩ := createTransitionCertificate_of_ne certifiedAt.val hne
  have ⟨_, hs⟩ := run_saveKey store works newKeypair j
  simp only [rotateIdentity, hc, EStateM.run_bind, hs, run_dump h, extend_extend]
  rfl

theorem state_rotateIdentity_same {current newKeypair : DeviceKeypair} {currentName : Text}
    {newName : Option Text} {certifiedAt : Clock} (he : current.deviceId P = newKeypair.deviceId P) :
    ((rotateIdentity P store works current currentName newName newKeypair certifiedAt createdAt).run j).state =
      j := by
  simp only [rotateIdentity, createTransitionCertificate, if_pos he]
  rfl

theorem state_saveIdentity {peerId name' : Text} {text' : Str} (hf : j.storage.file = some text)
    (hd : Describes P kp name createdAt rotatedFrom text) (hp : deviceIdText P kp = peerId)
    (hd' : Describes P kp name' createdAt rotatedFrom text') :
    ((saveIdentity P peerId name').run j).state = j.extend apply (rewrite text') := by
  simp only [saveIdentity, EStateM.run_bind, EStateM.run_get, hf, load, hd.loads, EStateM.run_pure, fieldsOf,
    namesDevice_publicMetadata, if_neg (not_not_intro hp), setItem_publicMetadata, run_dump hd']
  rfl

theorem state_saveIdentity_other {peerId name' : Text} (hf : j.storage.file = some text)
    (hd : Describes P kp name createdAt rotatedFrom text) (hp : deviceIdText P kp ≠ peerId) :
    ((saveIdentity P peerId name').run j).state = j := by
  simp only [saveIdentity, EStateM.run_bind, EStateM.run_get, hf, load, hd.loads, EStateM.run_pure, fieldsOf,
    namesDevice_publicMetadata, if_pos hp]
  rfl

theorem state_loadExisting {now : Clock} :
    ((loadExisting P identityFile store works text now).run j).state = j := by
  simp only [loadExisting, load]
  cases Json.loads P.floats text
  case error e => rfl
  case ok v =>
    simp only [EStateM.run_bind, EStateM.run_pure, EStateM.run_get]
    cases ((store.loadPrivateKey works).run j.storage.keys).fst
    case none => rfl
    case some kp =>
      cases v
      case obj fields =>
        simp only [fieldsOf, EStateM.run_bind, EStateM.run_pure]
        split <;> rfl
      all_goals rfl

theorem foldl_write (text t : Str) (keys : KeyStorage DeviceKeypair) :
    (text.map .write).foldl apply ⟨keys, some t⟩ = ⟨keys, some (t ++ text)⟩ := by
  induction text generalizing t
  case nil => simp
  case cons c text hi => simp [apply, hi]

theorem foldl_rewrite (text : Str) (s : IdentityStorage) :
    (rewrite text).foldl apply s = ⟨s.keys, some text⟩ :=
  foldl_write text [] s.keys

theorem foldl_take_rewrite (text : Str) (s : IdentityStorage) (n : Nat) :
    ((rewrite text).take (n + 1)).foldl apply s = ⟨s.keys, some (text.take n)⟩ := by
  simp only [rewrite, List.take_succ_cons, ← List.map_take, List.foldl_cons]
  exact foldl_write _ [] s.keys

end IdentityFile
