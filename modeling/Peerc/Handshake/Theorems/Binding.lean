import Peerc.Lib.Machine
import Peerc.Handshake.Theorems.Pinning

namespace Handshake

open TrustStore

variable {P : Primitives} {α : Type} {env : Env} {s s' : TrustStore} {cache : NonceCache}
  {transitions : Table (DbText × DbText) Transition Transition.key}

-- The device id is the digest of the key.
def Binds (P : Primitives) (deviceId publicKey : Str) : Prop :=
  ∃ raw, Encodes publicKey raw ∧ computeDeviceId P raw = deviceId

def AllBound (P : Primitives) (s : TrustStore) : Prop :=
  ∀ r ∈ s.devices.rows, Binds P r.deviceId.val r.publicKey.val

theorem allBound_iff_find? : AllBound P s ↔
    ∀ id r, s.devices.find? id = some r → Binds P r.deviceId.val r.publicKey.val := by
  constructor
  · exact fun h id r hf => h r (Table.mem_of_find? hf)
  · exact fun h r hr => h r.deviceId r (Table.find?_of_mem hr)

theorem allBound_insert {r : TrustedDevice} {devices : Devices}
    (h : s.devices.insert? r = some devices) :
    AllBound P ⟨devices, transitions⟩ ↔ AllBound P s ∧ Binds P r.deviceId.val r.publicKey.val := by
  simp only [AllBound, Table.insert?_rows h, List.forall_mem_append, List.forall_mem_singleton]

-- No update of a row touches its key.
theorem AllBound.update {id : DbText} {f : TrustedDevice → TrustedDevice}
    {hf : ∀ r, (f r).deviceId = r.deviceId} (h : AllBound P s)
    (hk : ∀ r, (f r).publicKey = r.publicKey) :
    AllBound P ⟨s.devices.update id f hf, transitions⟩ := by
  rw [allBound_iff_find?] at h ⊢
  intro id' r hr
  rw [Table.find?_update] at hr
  split at hr
  case isFalse => exact h id' r hr
  case isTrue =>
    obtain ⟨r', hr', rfl⟩ := Option.map_eq_some_iff.mp hr
    rw [hf, hk]
    exact h _ r' hr'

-- What the store of a process goes through. A handshake touches the store in one step, so that what the
-- user does while it is suspended comes before or after it.
inductive StoreEvent
  | initiator (party : Party) (env : Env) (cache : NonceCache)
  | responder (party : Party) (env : Env) (cache : NonceCache)
  | recordRotation (cert : TransitionCertificate) (now : Double)
  | approve (deviceId : Str)
  | revokeDevice (deviceId revokedBy : Str) (reason : Option Str) (now : Double)

namespace StoreEvent

def after (P : Primitives) (s : TrustStore) : StoreEvent → TrustStore
  | initiator party env cache =>
    ((performHandshakeInitiator P party env.quiet).run ⟨some s, cache⟩).state.store.getD s
  | responder party env cache =>
    ((performHandshakeResponder P party env.quiet).run ⟨some s, cache⟩).state.store.getD s
  | recordRotation cert now             => (Call.recordRotation cert now).after P s
  | approve d                           => (Call.approve d).after P s
  | revokeDevice d revokedBy reason now => (Call.revokeDevice d revokedBy reason now).after P s

-- The certificate verifies and gives the trust of its old device to a device that has no row yet, under a
-- key that does not belong to it.
def Misbinds (P : Primitives) (s : TrustStore) : StoreEvent → Prop
  | recordRotation cert _ => verifyTransitionCertificate P cert ∧ ¬cert.timestamp.isNaN ∧
    (∃ old : DbText, old.val = cert.oldDeviceId ∧ s.status? old = some .trusted) ∧
    (∀ new : DbText, new.val = cert.newDeviceId → s.devices.find? new = none) ∧
    ¬Binds P cert.newDeviceId cert.newPublicKey
  | _ => False

end StoreEvent

def storeMachine (P : Primitives) : Machine TrustStore StoreEvent where
  Init s   := s = .empty
  step s e := some (e.after P s)

-- A handshake leaves the store alone or makes the trust step for a peer that has shown its device id to be
-- the digest of its key.
inductive Steps (P : Primitives) (s : TrustStore) : TrustStore → Prop
  | stay : Steps P s s
  | trust {peer pub now dec s'} (identity : verifyDeviceIdentity P (Fields.deviceId peer).val
      peer.publicKey.val = .ok pub) (step : TrustStep peer now (some s) dec (some s')) : Steps P s s'

theorem Script.perform_steps {script : Script α} :
    Steps P s (((script.perform P env.quiet).run ⟨some s, cache⟩).state.store.getD s) := by
  rcases perform_cases P script env.quiet ⟨some s, cache⟩ with ⟨e, cache', h⟩ | ⟨m, pub, dec, store, ha⟩
  · rw [h, storeBefore_quiet]
    exact .stay
  · obtain ⟨cache', hr⟩ := perform_quiet_run ha
    have hst : ((script.perform P env.quiet).run ⟨some s, cache⟩).state.store = store := by
      rw [hr]
      cases script.reply m pub dec >>= script.finish <;> rfl
    have ht := ha.trust
    rw [storeBefore_quiet] at ht
    rw [hst]
    obtain ⟨s', rfl⟩ : ∃ s', store = some s' := by
      cases ht <;> exact ⟨_, rfl⟩
    exact .trust ha.presents.identity ht

theorem initiator_steps {party : Party} :
    Steps P s (((performHandshakeInitiator P party env.quiet).run ⟨some s, cache⟩).state.store.getD s) := by
  rw [performHandshakeInitiator_eq]
  simp only [EStateM.run_bind, liftExcept_run]
  cases initiatorStart P party env.quiet.ephemeral env.quiet.nonce env.quiet.start
  case error => exact .stay
  case ok => exact Script.perform_steps

theorem responder_steps {party : Party} :
    Steps P s (((performHandshakeResponder P party env.quiet).run ⟨some s, cache⟩).state.store.getD s) := by
  rw [performHandshakeResponder_eq]
  exact Script.perform_steps

theorem AllBound.steps (h : AllBound P s) (hs : Steps P s s') : AllBound P s' := by
  cases hs
  case stay => exact h
  case trust peer pub now dec hi ht =>
    cases ht
    case touch => exact h.update fun _ => rfl
    case firstSeen id pk name devices hd hk hn hf hins =>
      obtain ⟨hx, hid⟩ := verifyDeviceIdentity_eq_ok.mp hi
      refine (allBound_insert hins).mpr ⟨h, pub, .inl ?_, ?_⟩
      · rw [← hx, ← hk]
        rfl
      · rw [hid, ← hd]
        rfl

theorem AllBound.userCall {c : Call} (h : AllBound P s)
    (hc : (∃ d, c = .approve d) ∨ ∃ d revokedBy reason now, c = .revokeDevice d revokedBy reason now) :
    AllBound P (c.after P s) := by
  by_cases hr : c.Raises P s
  case pos => rwa [Call.after_of_raises hr]
  case neg =>
    have he := Call.effect_of_returns hr
    rcases hc with ⟨d, rfl⟩ | ⟨d, revokedBy, reason, now, rfl⟩ <;>
      (generalize Call.after _ _ s = s' at he; cases he; exact h.update fun _ => rfl)

-- A rotation keeps the binding exactly if the row it may insert has it.
theorem AllBound.carryOver_iff {t : Transition} {now : Double} {devices : Devices} (h : AllBound P s)
    (hc : CarryOver s.devices t now devices) :
    AllBound P ⟨devices, transitions⟩ ↔
      (s.status? t.oldDeviceId = some .trusted → s.devices.find? t.newDeviceId = none →
        Binds P t.newDeviceId.val t.newPublicKey.val) := by
  have ho {r} (hf : s.devices.find? t.oldDeviceId = some r) :
      s.status? t.oldDeviceId = some .trusted ↔ r.status = .trusted := by
    simp [status?, hf]
  cases hc
  case skip hs =>
    refine iff_of_true h fun ht _ => ?_
    obtain ⟨r, hf, hr⟩ := status?_eq_some_iff.mp ht
    exact absurd hr (hs r hf)
  case insert hf ht hn hi =>
    rw [allBound_insert hi, and_iff_right h]
    exact ⟨fun hb _ _ => hb, fun hb => hb ((ho hf).mpr ht) hn⟩
  case promote hf ht hn hp =>
    exact iff_of_true (h.update fun _ => rfl) fun _ hnone => by cases hn.symm.trans hnone
  case keep hf ht hn hp =>
    exact iff_of_true h fun _ hnone => by cases hn.symm.trans hnone

theorem AllBound.rotation_iff {cert : TransitionCertificate} {now : Double} (h : AllBound P s) :
    AllBound P ((Call.recordRotation cert now).after P s) ↔
      ¬StoreEvent.Misbinds P s (.recordRotation cert now) := by
  have raised (he : ∃ e, (recordRotation P cert now).run s = .error e s) :
      AllBound P ((Call.recordRotation cert now).after P s) := by
    obtain ⟨e, he⟩ := he
    simpa [Call.after, Call.exec, he] using h
  by_cases hv : verifyTransitionCertificate P cert
  case neg => exact iff_of_true (raised (recordRotation_run_unverified hv)) fun hm => hv hm.left
  by_cases hnan : cert.timestamp.isNaN
  case pos => exact iff_of_true (raised (recordRotation_run_nan hnan)) fun hm => hm.right.left hnan
  obtain ⟨t, ht, rfl⟩ := exists_records hv now
  simp only [StoreEvent.Misbinds, hv, hnan, ← ht.oldDeviceId, ← ht.newDeviceId, ← ht.newPublicKey,
    Subtype.val_inj, exists_eq_left, forall_eq, true_and, Bool.false_eq_true, not_false_eq_true]
  by_cases hrev : ∃ r, s.devices.find? t.oldDeviceId = some r ∧ r.status = .revoked
  case pos =>
    obtain ⟨r, hf, hr⟩ := hrev
    refine iff_of_true (raised (recordRotation_run_revoked hv ht hf hr)) fun hm => ?_
    simp [status?, hf, hr] at hm
  case neg =>
    obtain ⟨devices, hc, hr⟩ := recordRotation_run hv ht (fun r hf hr => hrev ⟨r, hf, hr⟩) hnan
    have ha : (Call.recordRotation cert t.recordedAt).after P s = ⟨devices, s.transitions.replace t⟩ := by
      simp [Call.after, Call.exec, hr]
    rw [ha, h.carryOver_iff hc]
    tauto

-- One step of the store
theorem AllBound.after_iff (h : AllBound P s) (e : StoreEvent) :
    AllBound P (e.after P s) ↔ ¬e.Misbinds P s := by
  cases e
  case initiator => exact iff_of_true (h.steps initiator_steps) id
  case responder => exact iff_of_true (h.steps responder_steps) id
  case recordRotation => exact h.rotation_iff
  case approve d => exact iff_of_true (h.userCall (.inl ⟨d, rfl⟩)) id
  case revokeDevice d revokedBy reason now =>
    exact iff_of_true (h.userCall (.inr ⟨d, revokedBy, reason, now, rfl⟩)) id

theorem AllBound.run (h : (storeMachine P).Run (fun s e => ¬e.Misbinds P s) s) : AllBound P s := by
  refine h.invariant ?_ ?_
  · rintro _ rfl
    exact List.forall_mem_nil _
  · rintro s e _ hb hg ⟨⟩
    exact (hb.after_iff e).mpr hg

-- A row whose device id is the one of `key` holds that key, unless the digest of `key` is the one of another
-- key as well.
theorem AllBound.encodes {r : TrustedDevice} {key : Bytes} (h : AllBound P s) (hr : r ∈ s.devices.rows)
    (hc : ∀ raw, P.sha256 raw = P.sha256 key → raw = key)
    (hid : r.deviceId.val = computeDeviceId P key) : Encodes r.publicKey.val key := by
  obtain ⟨raw, he, hd⟩ := h r hr
  have hx : (P.sha256 raw).hex = (P.sha256 key).hex := hd.trans hid
  have hs := congrArg Bytes.fromHex hx
  simp only [Bytes.fromHex_hex, Option.some.injEq] at hs
  exact hc raw hs ▸ he

-- In the runs without a misbinding certificate every stored key belongs to the device id it is stored
-- under, and a misbinding certificate always breaks this.
theorem pinned_keys_bound (P : Primitives) :
    (∀ s, (storeMachine P).Run (fun s e => ¬e.Misbinds P s) s → AllBound P s ∧
      ∀ r ∈ s.devices.rows, ∀ key, (∀ raw, P.sha256 raw = P.sha256 key → raw = key) →
        r.deviceId.val = computeDeviceId P key → Encodes r.publicKey.val key) ∧
    ∀ s, AllBound P s → ∀ e : StoreEvent, AllBound P (e.after P s) ↔ ¬e.Misbinds P s :=
  ⟨fun _ hs => ⟨.run hs, fun _ hr _ hc hid => (AllBound.run hs).encodes hr hc hid⟩,
    fun _ h e => h.after_iff e⟩

namespace Agreement

def aliceSeen : StoreEvent := .responder (device bobKey) (peerEnv aliceKey 1) shared.cache

def aliceApproved : StoreEvent := .approve (deviceIdText prims aliceKey).val

theorem aliceSeen_after : aliceSeen.after prims .empty = seen := by
  obtain ⟨r, cache, hr, -⟩ := alice_proves.completes seen_step
  simp only [aliceSeen, StoreEvent.after, hr]
  rfl

-- The two events meet every guard that only excludes certificates.
theorem approved_run {Guard : TrustStore → StoreEvent → Prop} (h₁ : Guard .empty aliceSeen)
    (h₂ : Guard seen aliceApproved) : (storeMachine prims).Run Guard approved := by
  have h₀ : (storeMachine prims).Run Guard .empty := .init rfl
  have hs : (storeMachine prims).Run Guard seen := h₀.step h₁ (congrArg some aliceSeen_after)
  exact hs.step h₂ rfl

-- Carol signs with her own key that alice is replaced by bob, and gives her own key as the one of bob.
def impostor : TransitionCertificate :=
  let key := Base64.encode carolKey
  let payload := TransitionCertificate.buildPayload (computeDeviceId prims aliceKey)
    (computeDeviceId prims bobKey) key key .zero
  {
    oldDeviceId  := computeDeviceId prims aliceKey
    oldPublicKey := key
    newDeviceId  := computeDeviceId prims bobKey
    newPublicKey := key
    timestamp    := .zero
    signature    := Base64.encode (DeviceKeypair.sign ⟨carolKey⟩ prims (payload.getD []))
  }

def impostorRow : TrustedDevice where
  deviceId  := deviceIdText prims bobKey
  publicKey := ⟨Base64.encode carolKey, (Base64.encode_isAscii _).encodable⟩
  name      := .ofString "peer"
  firstSeen := .zero
  lastSeen  := .zero
  status    := .trusted

theorem impostorRow_unbound : ¬Binds prims impostorRow.deviceId.val impostorRow.publicKey.val := by
  have hx : Bytes.fromHex (Base64.encode carolKey) = none := by decide +kernel
  have hd : Base64.decode (Base64.encode carolKey) = some carolKey := by decide +kernel
  rintro ⟨raw, hr | hr, hid⟩
  · cases hx.symm.trans hr
  · cases hd.symm.trans hr
    revert hid
    decide +kernel

end Agreement

open Agreement

-- Alice is approved; then bob's device id is stored as TRUSTED with the key of carol.
theorem pinned_keys_bound_impostor : ∃ s, (storeMachine prims).Reachable s ∧
    impostorRow ∈ s.devices.rows ∧ ¬AllBound prims s := by
  have hr : (storeMachine prims).Reachable approved := approved_run trivial trivial
  have hm : impostorRow ∈ (StoreEvent.after prims approved (.recordRotation impostor .zero)).devices.rows := by
    decide +kernel
  exact ⟨_, hr.step trivial rfl, hm, fun h => impostorRow_unbound (h _ hm)⟩

-- Alice is approved and replaces her key by the one of carol.
theorem pinned_keys_bound_rotated :
    (storeMachine prims).Run (fun s e => ¬e.Misbinds prims s) rotated ∧ AllBound prims rotated := by
  have ha : (storeMachine prims).Run (fun s e => ¬e.Misbinds prims s) approved := approved_run id id
  have hb : Binds prims certificate.newDeviceId certificate.newPublicKey := by
    have hd : Base64.decode certificate.newPublicKey = some carolKey ∧
        computeDeviceId prims carolKey = certificate.newDeviceId := by
      decide +kernel
    exact ⟨carolKey, .inr hd.left, hd.right⟩
  have hr : (storeMachine prims).Run (fun s e => ¬e.Misbinds prims s) rotated :=
    ha.step (e := .recordRotation certificate .zero) (fun hm => hm.right.right.right.right hb) rfl
  exact ⟨hr, ((pinned_keys_bound prims).left _ hr).left⟩

end Handshake
