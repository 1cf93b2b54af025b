import Peerc.Identity.Effect

open Journal IdentityFile

-- The key store and the file agree on a key pair.
structure Stored (P : Primitives) (loader : KeyStore) (s : IdentityStorage) (kp : DeviceKeypair) (name : Text)
    (createdAt : Clock) (rotatedFrom : Option Text) : Prop where
  key  : ((loader.loadPrivateKey true).run s.keys).fst = some kp
  file : ∃ text, s.file = some text ∧ Describes P kp name createdAt rotatedFrom text

namespace Stored

variable {P : Primitives} {identityFile : Str} {r : Restart} {loader store : KeyStore} {works : Bool}
  {s : IdentityStorage} {kp : DeviceKeypair} {name : Text} {createdAt : Clock} {rotatedFrom : Option Text}
  {text : Str}

theorem load (h : Stored P r.loader s kp name createdAt rotatedFrom) :
    r.load P identityFile s = some (identity r.loader kp name createdAt) := by
  have ⟨text, hf, hd⟩ := h.file
  rw [load_describes hf hd h.key, if_pos rfl]

theorem of_install (hr : loader.Reaches store works s.keys)
    (hd : Describes P kp name createdAt rotatedFrom text) :
    Stored P loader ((.saveKey store works kp :: rewrite text).foldl IdentityStorage.apply s)
      kp name createdAt rotatedFrom := by
  rw [List.foldl_cons, foldl_rewrite]
  exact ⟨hr.load kp, text, rfl, hd⟩

theorem of_rewrite (h : ((loader.loadPrivateKey true).run s.keys).fst = some kp)
    (hd : Describes P kp name createdAt rotatedFrom text) :
    Stored P loader ((rewrite text).foldl IdentityStorage.apply s) kp name createdAt rotatedFrom := by
  rw [foldl_rewrite]
  exact ⟨h, text, rfl, hd⟩

-- While the file is being written, it can be read from the moment on at which it is complete.
theorem load_rewriting {keys : KeyStorage DeviceKeypair} {n : Nat} {p : DeviceIdentity → Prop}
    (h : ((r.loader.loadPrivateKey true).run keys).fst = some kp)
    (hd : Describes P kp name createdAt rotatedFrom text) (hp : p (identity r.loader kp name createdAt)) :
    (∃ i, r.load P identityFile ⟨keys, some (text.take n)⟩ = some i ∧ p i) ↔ text.length ≤ n := by
  rcases Nat.lt_or_ge n text.length with hn | hn
  · have hl : r.load P identityFile ⟨keys, some (text.take n)⟩ = none := load_take rfl hd hn
    simp [hl, hn]
  · have hs : Stored P r.loader ⟨keys, some text⟩ kp name createdAt rotatedFrom := ⟨h, text, rfl, hd⟩
    simp [List.take_of_length_le hn, hs.load, hn, hp]

-- With another key than the file was written for, the device id of the file decides.
theorem load_saved {keys : KeyStorage DeviceKeypair} {kp' : DeviceKeypair} {name' : Text}
    {createdAt' : Clock} {old new : DeviceIdentity} (h : Stored P r.loader s kp name createdAt rotatedFrom)
    (hk : ((r.loader.loadPrivateKey true).run keys).fst = some kp')
    (ho : old = identity r.loader kp name createdAt) (hn : new = identity r.loader kp' name' createdAt') :
    (∃ i, r.load P identityFile { s with keys } = some i ∧ (i = old ∨ i = new)) ↔
      kp'.deviceId P = kp.deviceId P ∧
        (kp' = kp ∨ old.name = new.name ∧ old.createdAt = new.createdAt) := by
  have ⟨text, hf, hd⟩ := h.file
  have hl : r.load P identityFile { s with keys } =
      if deviceIdText P kp = deviceIdText P kp' then some (identity r.loader kp' name createdAt) else none :=
    load_describes hf hd hk
  have hid : deviceIdText P kp = deviceIdText P kp' ↔ kp'.deviceId P = kp.deviceId P :=
    Subtype.ext_iff.trans eq_comm
  rw [hl, ho, hn]
  by_cases he : deviceIdText P kp = deviceIdText P kp'
  case pos => simp [if_pos he, hid.mp he, identity]
  case neg => simp [if_neg he, hid.not.mp he]

end Stored

namespace IdentityCall

-- The key store of the call puts the key where the loader will find it.
def Reaches (loader : KeyStore) (s : IdentityStorage) : IdentityCall → Prop
  | loadOrCreate store works .. => s.file.isNone → loader.Reaches store works s.keys
  | rotate store works ..       => loader.Reaches store works s.keys
  | rename ..                   => True

-- The identity that the call puts in the place of the stored one
def installs (P : Primitives) (old : DeviceIdentity) : IdentityCall → DeviceIdentity
  | loadOrCreate .. => old
  | rotate _ _ current currentName newName newKeypair _ createdAt =>
    if current.deviceId P = newKeypair.deviceId P then old
    else { old with
      keypair   := newKeypair
      name      := .str (orText (some (orText newName currentName)) (.ofString "peer"))
      createdAt := .float createdAt.val
    }
  | rename peerId name =>
    if deviceIdText P old.keypair = peerId
    then { old with name := .str (orText (some name) (.ofString "peer")) }
    else old

-- The new key has the device id of the stored one, and the rest of the identity is one of the two.
def SameDevice (P : Primitives) (old : DeviceIdentity) : IdentityCall → Prop
  | rotate _ _ _ currentName newName newKeypair _ createdAt =>
    newKeypair.deviceId P = old.keypair.deviceId P ∧
      (newKeypair = old.keypair ∨
        old.name = .str (orText (some (orText newName currentName)) (.ofString "peer")) ∧
        old.createdAt = .float createdAt.val)
  | _ => False

-- The call is interrupted before its first step or after its last one, or with only the key saved.
def Survives (P : Primitives) (identityFile : Str) (s : IdentityStorage) (old : DeviceIdentity)
    (call : IdentityCall) (n : Nat) : Prop :=
  n = 0 ∨ (stepsOf (call.exec P identityFile) s).length ≤ n ∨ n = 1 ∧ call.SameDevice P old

variable {P : Primitives} {identityFile : Str} {loader : KeyStore} {s : IdentityStorage} {call : IdentityCall}
  {kp : DeviceKeypair} {name : Text} {createdAt : Clock} {rotatedFrom : Option Text}

-- What a call does to a stored identity: nothing, or it writes the file, or it saves a key before that.
inductive Effect (P : Primitives) (kp : DeviceKeypair) (createdAt : Clock) (rotatedFrom : Option Text) :
    IdentityCall → List StorageStep → Prop
  | quiet {call : IdentityCall} (installs : ∀ {old}, old.keypair = kp → call.installs P old = old) :
    Effect P kp createdAt rotatedFrom call []
  | rename {peerId name : Text} {text : Str} (names : deviceIdText P kp = peerId)
      (describes : Describes P kp name createdAt rotatedFrom text) :
    Effect P kp createdAt rotatedFrom (.rename peerId name) (rewrite text)
  | rotate {store : KeyStore} {works : Bool} {current newKeypair : DeviceKeypair} {currentName : Text}
      {newName : Option Text} {certifiedAt createdAt' : Clock} {text : Str}
      (other : current.deviceId P ≠ newKeypair.deviceId P)
      (describes : Describes P newKeypair (orText newName currentName) createdAt'
        (some (deviceIdText P current)) text) :
    Effect P kp createdAt rotatedFrom
      (.rotate store works current currentName newName newKeypair certifiedAt createdAt')
      (.saveKey store works newKeypair :: rewrite text)

theorem effect (identityFile : Str) (call : IdentityCall)
    (h : Stored P loader s kp name createdAt rotatedFrom) : ∃ ds,
    Effect P kp createdAt rotatedFrom call ds ∧
      ((call.exec P identityFile).run { storage := s }).state =
        extend IdentityStorage.apply { storage := s } ds := by
  obtain ⟨text, hf, hd⟩ := h.file
  cases call
  case loadOrCreate store works name' kp' now =>
    refine ⟨[], .quiet fun _ => rfl, ?_⟩
    rw [exec, EStateM.state_discard, extend_nil]
    simp only [loadOrCreateIdentity, EStateM.run_bind, EStateM.run_get, hf]
    exact state_loadExisting
  case rotate store works current currentName newName newKeypair certifiedAt createdAt' =>
    by_cases he : current.deviceId P = newKeypair.deviceId P
    case pos =>
      refine ⟨[], .quiet fun _ => if_pos he, ?_⟩
      rw [exec, EStateM.state_discard, extend_nil]
      exact state_rotateIdentity_same he
    case neg =>
      obtain ⟨text', hd'⟩ := publicMetadata_dumps P newKeypair (orText newName currentName) createdAt'
        (some (deviceIdText P current))
      refine ⟨_, .rotate he hd', ?_⟩
      rw [exec, EStateM.state_discard]
      exact state_rotateIdentity he hd'
  case rename peerId name' =>
    by_cases he : deviceIdText P kp = peerId
    case pos =>
      obtain ⟨text', hd'⟩ := publicMetadata_dumps P kp name' createdAt rotatedFrom
      exact ⟨_, .rename he hd', state_saveIdentity hf hd he hd'⟩
    case neg =>
      refine ⟨[], .quiet fun hk => if_neg (hk ▸ he), ?_⟩
      rw [extend_nil]
      exact state_saveIdentity_other hf hd he

-- What a completed call leaves is an identity again.
theorem stored_after (identityFile : Str) (h : Stored P loader s kp name createdAt rotatedFrom)
    (hr : call.Reaches loader s) :
    ∃ kp' name' createdAt' rotatedFrom',
      Stored P loader (after (call.exec P identityFile) s) kp' name' createdAt' rotatedFrom' ∧
      identity loader kp' name' createdAt' = call.installs P (identity loader kp name createdAt) := by
  have ⟨ds, he, hs⟩ := effect identityFile call h
  rw [after_eq hs]
  cases he
  case quiet hi => exact ⟨kp, name, createdAt, rotatedFrom, h, (hi rfl).symm⟩
  case rename name' _ hp hd =>
    exact ⟨kp, name', createdAt, rotatedFrom, .of_rewrite h.key hd, (if_pos hp).symm⟩
  case rotate newKeypair currentName newName _ createdAt' _ hne hd =>
    exact ⟨newKeypair, orText newName currentName, createdAt', _, .of_install hr hd, (if_neg hne).symm⟩

-- There is no identity yet, or one can be loaded.
def Consistent (P : Primitives) (loader : KeyStore) (s : IdentityStorage) : Prop :=
  s.file = none ∨ ∃ kp name createdAt rotatedFrom, Stored P loader s kp name createdAt rotatedFrom

-- Without a file, a call writes one or leaves none.
theorem consistent_of_none (h : s.file = none) (hr : call.Reaches loader s) :
    Consistent P loader (after (call.exec P identityFile) s) := by
  cases call
  case loadOrCreate store works name kp now =>
    obtain ⟨text, hd⟩ := publicMetadata_dumps P kp (orText name (.ofString "peer")) now none
    have hs : ((exec P identityFile (.loadOrCreate store works name kp now)).run { storage := s }).state =
        extend IdentityStorage.apply { storage := s } (.saveKey store works kp :: rewrite text) := by
      rw [exec, EStateM.state_discard]
      simp only [loadOrCreateIdentity, EStateM.run_bind, EStateM.run_get, h]
      exact state_createNew hd
    rw [after_eq hs]
    exact .inr ⟨_, _, _, _, .of_install (hr (h ▸ rfl)) hd⟩
  case rotate store works current currentName newName newKeypair certifiedAt createdAt =>
    by_cases he : current.deviceId P = newKeypair.deviceId P
    case pos =>
      refine .inl ?_
      rw [after, exec, EStateM.state_discard, state_rotateIdentity_same he]
      exact h
    case neg =>
      obtain ⟨text, hd⟩ := publicMetadata_dumps P newKeypair (orText newName currentName) createdAt
        (some (deviceIdText P current))
      have hs : ((exec P identityFile (.rotate store works current currentName newName newKeypair
          certifiedAt createdAt)).run { storage := s }).state =
          extend IdentityStorage.apply { storage := s } (.saveKey store works newKeypair :: rewrite text) := by
        rw [exec, EStateM.state_discard]
        exact state_rotateIdentity he hd
      rw [after_eq hs]
      exact .inr ⟨_, _, _, _, .of_install hr hd⟩
  case rename peerId name =>
    refine .inl ?_
    simp only [after, exec, saveIdentity, EStateM.run_bind, EStateM.run_get, h]
    exact h

theorem consistent_of_run
    (run : (identityMachine P identityFile).Run (fun s call => call.Reaches loader s) s) :
    Consistent P loader s := by
  refine run.invariant .inl fun {s call s'} hi hr hs => ?_
  cases hs
  rcases hi with h | ⟨_, _, _, _, h⟩
  · exact consistent_of_none h hr
  · have ⟨_, _, _, _, h', _⟩ := stored_after identityFile h hr
    exact .inr ⟨_, _, _, _, h'⟩

-- How far an interrupted call has come
theorem survives_iff {r : Restart} (h : Stored P r.loader s kp name createdAt rotatedFrom)
    (hr : call.Reaches r.loader s) (n : Nat) :
    let old := identity r.loader kp name createdAt
    (∃ i, r.load P identityFile (interrupted IdentityStorage.apply (call.exec P identityFile) s n) = some i ∧
      (i = old ∨ i = call.installs P old)) ↔ call.Survives P identityFile s old n := by
  intro old
  have ⟨ds, he, hs⟩ := effect identityFile call h
  rw [interrupted_eq hs, Survives, stepsOf_eq hs]
  have hold : r.load P identityFile s = some old := h.load
  cases n
  case zero => simp [hold]
  case succ n =>
    cases he
    case quiet => simp [hold]
    case rename name' text hp hd =>
      have hn : identity r.loader kp name' createdAt = installs P old (.rename _ name') := (if_pos hp).symm
      rw [foldl_take_rewrite]
      refine (Stored.load_rewriting h.key hd (.inr hn)).trans ?_
      simp [IdentityFile.rewrite, SameDevice]
    case rotate store works current newKeypair currentName newName certifiedAt createdAt' text hne hd =>
      have hn : identity r.loader newKeypair (orText newName currentName) createdAt' = installs P old
          (.rotate store works current currentName newName newKeypair certifiedAt createdAt') :=
        (if_neg hne).symm
      have hk := KeyStore.Reaches.load hr newKeypair
      rw [List.take_succ_cons, List.foldl_cons, ← hn]
      cases n
      case zero =>
        refine (h.load_saved hk rfl rfl).trans ?_
        simp [IdentityFile.rewrite, SameDevice, old, identity]
      case succ n =>
        rw [foldl_take_rewrite]
        refine (Stored.load_rewriting hk hd (.inr rfl)).trans ?_
        simp [IdentityFile.rewrite]

end IdentityCall

open IdentityCall in
theorem identity_survives_crash (P : Primitives) (identityFile : Str) (r : Restart) (call : IdentityCall)
    {s : IdentityStorage}
    (run : (identityMachine P identityFile).Run (fun s call => call.Reaches r.loader s) s)
    (written : s.file.isSome) (reaches : call.Reaches r.loader s) :
    ∃ old, r.load P identityFile s = some old ∧
      r.load P identityFile (after (call.exec P identityFile) s) = some (call.installs P old) ∧
      ∀ n, (∃ i, r.load P identityFile
          (interrupted IdentityStorage.apply (call.exec P identityFile) s n) = some i ∧
          (i = old ∨ i = call.installs P old)) ↔
        call.Survives P identityFile s old n := by
  rcases consistent_of_run run with h | ⟨kp, name, createdAt, _, h⟩
  · simp [h] at written
  · have ⟨_, _, _, _, h', hi⟩ := stored_after identityFile h reaches
    exact ⟨identity r.loader kp name createdAt, h.load, hi ▸ h'.load, survives_iff h reaches⟩

namespace CrashExample

def identityFile : Str := .ofString "identity.json"

def now : Clock := ⟨.zero, Double.isFinite_zero⟩

def restart : Restart := ⟨⟨.keyring⟩, none, ⟨[3]⟩, now⟩

-- The first start of a device, and what it stores
def create : IdentityCall := .loadOrCreate ⟨.keyring⟩ true none ⟨[1]⟩ now

def created : IdentityStorage := after (create.exec .transparent identityFile) {}

def rotate : IdentityCall := .rotate ⟨.keyring⟩ true ⟨[1]⟩ (.ofString "peer") none ⟨[2]⟩ now now

theorem run_created :
    (identityMachine .transparent identityFile).Run (fun s call => call.Reaches restart.loader s) created := by
  have h₀ : (identityMachine .transparent identityFile).Init {} := rfl
  have hr : create.Reaches restart.loader {} := fun _ => rfl
  exact .step (.init h₀) hr rfl

theorem created_isSome : created.file.isSome := by
  decide +kernel

-- The new key is saved, and the file still describes the old one.
theorem load_key_saved : restart.load .transparent identityFile
    (interrupted IdentityStorage.apply (rotate.exec .transparent identityFile) created 1) = none := by
  rw [← Option.isNone_iff_eq_none]
  decide +kernel

end CrashExample

open CrashExample in
theorem identity_survives_crash_key_saved :
    (identityMachine .transparent identityFile).Run (fun s call => call.Reaches restart.loader s) created ∧
    created.file.isSome ∧ rotate.Reaches restart.loader created ∧
    (restart.load .transparent identityFile created).isSome ∧
    restart.load .transparent identityFile
      (interrupted IdentityStorage.apply (rotate.exec .transparent identityFile) created 1) = none := by
  refine ⟨run_created, created_isSome, rfl, ?_, load_key_saved⟩
  decide +kernel

open CrashExample in
theorem identity_survives_crash_rotated :
    ∃ old, restart.load .transparent identityFile created = some old ∧
      ¬rotate.Survives .transparent identityFile created old 1 ∧
      ∃ i, restart.load .transparent identityFile
        (interrupted IdentityStorage.apply (rotate.exec .transparent identityFile) created 0) = some i := by
  have ⟨old, hl, _, h⟩ := identity_survives_crash .transparent identityFile restart rotate run_created
    created_isSome rfl
  have ⟨i, hi, _⟩ := (h 0).mpr (.inl rfl)
  refine ⟨old, hl, ?_, i, hi⟩
  rw [← h 1, load_key_saved]
  exact fun ⟨_, hn, _⟩ => nomatch hn
