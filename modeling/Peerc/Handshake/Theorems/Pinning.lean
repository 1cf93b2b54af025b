import Peerc.Trust.Theorems.ChainSound
import Peerc.Handshake.Theorems.Rollback

-- The device id of a key, as it is looked up
def deviceIdText (P : Primitives) (publicKeyBytes : Bytes) : DbText :=
  ⟨computeDeviceId P publicKeyBytes, (Bytes.hex_isAscii _).encodable⟩

namespace Handshake

open TrustStore

variable {P : Primitives} {α : Type} {env : Env} {party : Party} {m : Json} {pub : Bytes}
variable {dec : TrustDecision} {s s' : TrustStore} {ids : List DbText} {cache : NonceCache}
variable {c : Call}

-- The stores that completed handshakes, approvals and genuine certificates lead to, with the devices that
-- a certificate of a TRUSTED device has introduced
inductive Reached (P : Primitives) : TrustStore → (introduced : List DbText) → Prop
  | empty : Reached P .empty []
  | initiator {s s' ids party env cache r sh'} (reached : Reached P s ids)
    (completed : (performHandshakeInitiator P party (Env.quiet env)).run ⟨some s, cache⟩ = .ok r sh')
    (store : sh'.store = some s') : Reached P s' ids
  | responder {s s' ids party env cache r sh'} (reached : Reached P s ids)
    (completed : (performHandshakeResponder P party (Env.quiet env)).run ⟨some s, cache⟩ = .ok r sh')
    (store : sh'.store = some s') : Reached P s' ids
  | approve {s ids d} (reached : Reached P s ids) : Reached P ((Call.approve d).after P s) ids
  | rotate {s ids old new ts cert now} (reached : Reached P s ids)
    (genuine : createTransitionCertificate P old new ts = .ok cert)
    (returns : ¬(Call.recordRotation cert now).Raises P s) :
    Reached P ((Call.recordRotation cert now).after P s)
      (if s.status? (deviceIdText P (old.publicKeyBytes P)) = some .trusted then
        deviceIdText P (new.publicKeyBytes P) :: ids else ids)

-- No device is REVOKED, and the devices that were introduced are TRUSTED.
structure Standing (s : TrustStore) (ids : List DbText) : Prop where
  unrevoked  : ∀ {id}, s.status? id ≠ some .revoked
  introduced : ∀ {id}, id ∈ ids → s.status? id = some .trusted

theorem Standing.effect (hs : Standing s ids) (h : Effect P s c s')
    (hc : ∀ {d revokedBy reason now}, c ≠ .revokeDevice d revokedBy reason now) :
    Standing s' ids := by
  have hu {id} : s'.status? id ≠ some .revoked := fun hr => hs.unrevoked (h.revoked_before hc hr)
  refine ⟨hu, fun {id} hi => ?_⟩
  obtain ⟨r, hf, ht⟩ := status?_eq_some_iff.mp (hs.introduced hi)
  obtain ⟨r', hf', ha⟩ := h.extends id r hf
  refine status?_eq_some_iff.mpr ⟨r', hf', ?_⟩
  have hrank := ha.status
  cases hr : r'.status
  case trusted => rfl
  case pending => simp [ht, hr, TrustStatus.rank] at hrank
  case revoked => exact absurd (status?_eq_some_iff.mpr ⟨r', hf', hr⟩) hu

theorem Standing.trusted {id : DbText} (hs : Standing s ids) (hd : s.Decided id) :
    s.status? id = some .trusted := by
  obtain ⟨r, hf, hr⟩ := hd
  refine status?_eq_some_iff.mpr ⟨r, hf, ?_⟩
  cases hst : r.status
  case trusted => rfl
  case pending => exact absurd hst hr
  case revoked => exact absurd (status?_eq_some_iff.mpr ⟨r, hf, hst⟩) hs.unrevoked

theorem Standing.rotate {old new : DeviceKeypair} {ts now : Double} {cert : TransitionCertificate}
    (hs : Standing s ids) (hg : createTransitionCertificate P old new ts = .ok cert)
    (h : Effect P s (.recordRotation cert now) s') :
    Standing s' (if s.status? (deviceIdText P (old.publicKeyBytes P)) = some .trusted then
      deviceIdText P (new.publicKeyBytes P) :: ids else ids) := by
  have hs' := hs.effect h nofun
  split
  case isFalse => exact hs'
  case isTrue ht =>
    refine ⟨hs'.unrevoked, fun {id} hi => ?_⟩
    rcases List.mem_cons.mp hi with rfl | hi
    case inr => exact hs'.introduced hi
    case inl =>
      obtain ⟨hold, hnew, -⟩ := createTransitionCertificate_fields hg
      cases h with
      | recordRotation verified records rev carry =>
        obtain ⟨r, hf, hr⟩ := status?_eq_some_iff.mp ht
        have ho : deviceIdText P (old.publicKeyBytes P) = _ :=
          Subtype.ext (hold.symm.trans records.oldDeviceId.symm)
        have hn : deviceIdText P (new.publicKeyBytes P) = _ :=
          Subtype.ext (hnew.symm.trans records.newDeviceId.symm)
        rw [ho] at hf
        rw [hn]
        exact hs'.trusted (carry.decided_new hf hr)

theorem Script.perform_standing {script : Script α} {r : Result} {sh' : Shared} (hs : Standing s ids)
    (h : (script.perform P env.quiet).run ⟨some s, cache⟩ = .ok r sh') (hs' : sh'.store = some s') :
    Standing s' ids := by
  obtain ⟨m, pub, dec, store, sent, ha, -, -, hst⟩ := Script.perform_eq_ok h
  have hmap : store.map (·.run P env.quiet.after) = store := by
    cases store <;> rfl
  rw [hmap, hs'] at hst
  have ht := ha.trust
  rw [storeBefore_quiet, ← hst] at ht
  exact hs.effect (P := P) ht.effect nofun

theorem Reached.standing (h : Reached P s ids) : Standing s ids := by
  induction h
  case empty => exact ⟨nofun, nofun⟩
  case initiator hc hst hi =>
    rw [performHandshakeInitiator_eq, run_bind_eq_ok] at hc
    obtain ⟨⟨st, frame⟩, sh, hstart, hc⟩ := hc
    cases (liftExcept_eq_ok.mp hstart).right
    exact Script.perform_standing hi hc hst
  case responder hc hst hi =>
    rw [performHandshakeResponder_eq] at hc
    exact Script.perform_standing hi hc hst
  case approve s ids d _ hi =>
    by_cases hr : (Call.approve d).Raises P s
    case pos => rwa [Call.after_of_raises hr]
    case neg => exact hi.effect (Call.effect_of_returns hr) nofun
  case rotate hg hr hi => exact hi.rotate hg (Call.effect_of_returns hr)

-- The handshake as seen by a peer that proves possession of the key `pub`: it does not end in a
-- `KeyChangedError`, and a device that was introduced is TRUSTED.
def Recognised (P : Primitives) (ids : List DbText) (pub : Bytes)
    (outcome : EStateM.Result Failure Shared Result) : Prop :=
  (∀ msg sh, outcome ≠ .error (.keyChanged msg) sh) ∧
  (deviceIdText P pub ∈ ids → ∃ r sh, outcome = .ok r sh ∧ r.trustDecision = .trusted)

-- If there is a row for the device, it has the key in the spelling of the message.
def SameSpelling (P : Primitives) (s : TrustStore) (m : Json) (pub : Bytes) : Prop :=
  ∀ r, s.devices.find? (deviceIdText P pub) = some r → r.publicKey.val = (Fields.ofMessage m).publicKey.val

theorem Presents.deviceIdText {name : String} {now : Double}
    (h : Presents P name cache now m pub) :
    (deviceIdText P pub).val = (Fields.ofMessage m).deviceId.val :=
  (verifyDeviceIdentity_eq_ok.mp h.identity).right

theorem Script.perform_run_store {script : Script α} (hr : script.read = .ok m)
    (hp : Presents P script.name cache env.now.cache m pub) :
    ∃ cache', (script.perform P env.quiet).run ⟨some s, cache⟩ =
      match (TrustStore.checkAndUpdateTrust (deviceIdText P pub).val (Fields.ofMessage m).publicKey.val
        (Fields.ofMessage m).senderName.val env.now.trust).run s with
      | .error e s' => .error (.ofTrust e) ⟨some s', cache'⟩
      | .ok dec s' =>
        match script.reply m pub dec >>= script.finish with
        | .error e => .error e ⟨some s', cache'⟩
        | .ok r    => .ok r ⟨some s', cache'⟩ := by
  have ⟨cache', ha⟩ : ∃ cache', (checkPeer P script.name script.role m env.now).run ⟨some s, cache⟩ = _ :=
    checkPeer_run_store hp
  refine ⟨cache', ?_⟩
  simp only [perform, interfere, Env.quiet, EStateM.run_bind, EStateM.run_modify, liftExcept_run, hr,
    Option.map_some, run_nil, ha, ← hp.deviceIdText]
  generalize (TrustStore.checkAndUpdateTrust _ _ _ _).run s = x
  cases x
  case error => rfl
  case ok dec s' =>
    cases hsent : script.reply m pub dec
    case error => simp only [hsent, bind, Except.bind]
    case ok sent => cases hf : script.finish sent <;> simp only [hsent, hf, bind, Except.bind] <;> rfl

theorem Script.recognised_iff {script : Script α} (hs : Standing s ids) (hr : script.read = .ok m)
    (hp : Presents P script.name cache env.now.cache m pub)
    (hok : ∀ dec, ∃ r, script.reply m pub dec >>= script.finish = .ok r ∧
      r.Describes (.ofMessage m) dec) :
    Recognised P ids pub ((script.perform P env.quiet).run ⟨some s, cache⟩) ↔
      SameSpelling P s m pub := by
  obtain ⟨cache', hrun⟩ : ∃ cache', (script.perform P env.quiet).run ⟨some s, cache⟩ = _ :=
    perform_run_store hr hp
  rw [hrun]
  cases hf : s.devices.find? (deviceIdText P pub)
  case none =>
    -- The device was not introduced, or it would have a row.
    have hnot : deviceIdText P pub ∉ ids := fun hi => by
      have := hs.introduced hi
      simp [status?, hf] at this
    refine ⟨fun _ r hr => (by cases hf.symm.trans hr), fun _ => ⟨fun msg sh => ?_, (absurd · hnot)⟩⟩
    by_cases he : (Fields.ofMessage m).publicKey.val.Encodable ∧ (Fields.ofMessage m).senderName.val.Encodable
    case neg => simp [checkAndUpdateTrust_run_unstorable hf he, Failure.ofTrust]
    case pos =>
      obtain ⟨devices, hi⟩ := Table.insert?_of_find?_eq_none
        (r := pendingRow (deviceIdText P pub) ⟨_, he.left⟩ ⟨_, he.right⟩ env.now.trust) hf
      obtain ⟨r, hok, -⟩ := hok .pending
      simp [checkAndUpdateTrust_run_unknown hf hi, hok]
  case some r =>
    have hrev : r.status ≠ .revoked := fun hr => hs.unrevoked (status?_eq_some_iff.mpr ⟨r, hf, hr⟩)
    by_cases hk : r.publicKey.val = (Fields.ofMessage m).publicKey.val
    case pos =>
      refine ⟨fun _ r' hr' => (by cases hf.symm.trans hr'; exact hk), fun _ => ?_⟩
      obtain ⟨res, hok, hdec⟩ := hok (if r.status = .trusted then .trusted else .pending)
      simp only [checkAndUpdateTrust_run_known hf, hk, hrev, ne_eq, not_true_eq_false, if_false, hok]
      refine ⟨fun _ _ => by rintro ⟨⟩, fun hi => ⟨res, _, rfl, ?_⟩⟩
      obtain ⟨r', hf', ht⟩ := status?_eq_some_iff.mp (hs.introduced hi)
      cases hf.symm.trans hf'
      rw [hdec.trustDecision, if_pos ht]
    case neg =>
      refine ⟨fun h => ?_, fun h => absurd (h r hf) hk⟩
      simp only [checkAndUpdateTrust_run_known hf, ne_eq, hk, not_false_eq_true, if_true] at h
      exact absurd rfl (h.left _ _)

-- In this handshake the peer proves possession of the key `pub`.

structure ProvesToInitiator (P : Primitives) (party : Party) (env : Env) (cache : NonceCache) (m : Json)
    (pub : Bytes) : Prop where
  start    : (initiatorStart P party env.ephemeral env.nonce env.start).toBool
  drained  : env.drain₁
  read     : awaitFrame P "handshake_response" env.first = .ok m
  presents : Presents P "handshake_response" cache env.now.cache m pub
  holds    : ResponseHolds P party env m pub

structure ProvesToResponder (P : Primitives) (party : Party) (env : Env) (cache : NonceCache) (m : Json)
    (pub : Bytes) : Prop where
  read     : awaitFrame P "handshake_init" env.first = .ok m
  presents : Presents P "handshake_init" cache env.now.cache m pub
  holds    : FinishHolds P party env m pub

theorem ProvesToInitiator.script (h : ProvesToInitiator P party env cache m pub) :
    ∃ st, (performHandshakeInitiator P party env.quiet).run ⟨some s, cache⟩ =
        ((initiatorScript P st env).perform P env.quiet).run ⟨some s, cache⟩ ∧
      (initiatorScript P st env).read = .ok m ∧
      ∀ dec, ∃ r, (initiatorScript P st env).reply m pub dec >>= (initiatorScript P st env).finish =
        .ok r ∧ r.Describes (.ofMessage m) dec := by
  obtain ⟨⟨st, frame⟩, hs⟩ : ∃ sent, initiatorStart P party env.ephemeral env.nonce env.start =
      .ok sent := by
    have := h.start
    cases hs : initiatorStart P party env.ephemeral env.nonce env.start
    case error => simp [hs, Except.toBool] at this
    case ok sent => exact ⟨sent, rfl⟩
  refine ⟨st, ?_, ?_, fun dec => ?_⟩
  · have hs' : initiatorStart P party env.quiet.ephemeral env.quiet.nonce env.quiet.start = _ := hs
    simp only [performHandshakeInitiator_eq, EStateM.run_bind, liftExcept_run, hs']
    rfl
  · simp [initiatorScript, h.drained, h.read, drain, bind, Except.bind]
  · obtain ⟨r, hr⟩ : ∃ r, (initiatorScript P st env).reply m pub dec >>= _ = .ok r :=
      (initiatorScript_isOk (initiatorStart_eq_ok hs)).mpr h.holds
    exact ⟨r, hr, initiatorScript_result hr⟩

theorem ProvesToResponder.script (h : ProvesToResponder P party env cache m pub) (dec : TrustDecision) :
    ∃ r, (responderScript P party env).reply m pub dec >>= (responderScript P party env).finish = .ok r ∧
      r.Describes (.ofMessage m) dec := by
  obtain ⟨r, hr⟩ := responderScript_isOk.mpr h.holds
  exact ⟨r, hr, responderScript_result hr⟩

theorem key_pinning_iff (P : Primitives) (s : TrustStore) (ids : List DbText) (h : Reached P s ids)
    (party : Party) (env : Env) (cache : NonceCache) (m : Json) (pub : Bytes) :
    (ProvesToInitiator P party env cache m pub →
      (Recognised P ids pub ((performHandshakeInitiator P party env.quiet).run ⟨some s, cache⟩) ↔
        SameSpelling P s m pub)) ∧
    (ProvesToResponder P party env cache m pub →
      (Recognised P ids pub ((performHandshakeResponder P party env.quiet).run ⟨some s, cache⟩) ↔
        SameSpelling P s m pub)) := by
  constructor
  · intro hp
    obtain ⟨st, hrun, hread, hok⟩ := hp.script (s := s)
    rw [hrun]
    exact Script.recognised_iff h.standing hread hp.presents hok
  · intro hp
    have hscript : responderScript P party env.quiet = responderScript P party env := rfl
    rw [performHandshakeResponder_eq, hscript]
    exact Script.recognised_iff h.standing hp.read hp.presents hp.script

theorem ProvesToResponder.completes (h : ProvesToResponder P party env cache m pub)
    (ht : TrustStep (.ofMessage m) env.now.trust (some s) dec (some s')) :
    ∃ r cache', (performHandshakeResponder P party env.quiet).run ⟨some s, cache⟩ =
      .ok r ⟨some s', cache'⟩ ∧ r.Describes (.ofMessage m) dec := by
  have hscript : responderScript P party env.quiet = responderScript P party env := rfl
  rw [performHandshakeResponder_eq, hscript]
  have ha : (responderScript P party env).Admits P env.quiet ⟨some s, cache⟩ m pub dec (some s') :=
    ⟨h.read, h.presents, by rwa [storeBefore_quiet]⟩
  obtain ⟨cache', hr⟩ := Script.perform_quiet_run ha
  obtain ⟨r, hok, hd⟩ := h.script dec
  exact ⟨r, cache', by rw [hr, hok], hd⟩

theorem ProvesToInitiator.completes (h : ProvesToInitiator P party env cache m pub)
    (ht : TrustStep (.ofMessage m) env.now.trust (some s) dec (some s')) :
    ∃ r cache', (performHandshakeInitiator P party env.quiet).run ⟨some s, cache⟩ =
      .ok r ⟨some s', cache'⟩ ∧ r.Describes (.ofMessage m) dec := by
  obtain ⟨st, hrun, hread, hok⟩ := h.script (s := s)
  have ha : (initiatorScript P st env).Admits P env.quiet ⟨some s, cache⟩ m pub dec (some s') :=
    ⟨hread, h.presents, by rwa [storeBefore_quiet]⟩
  obtain ⟨cache', hr⟩ := Script.perform_quiet_run ha
  obtain ⟨r, hok, hd⟩ := hok dec
  exact ⟨r, cache', by rw [hrun, hr, hok], hd⟩

theorem ProvesToResponder.keyChanged {r : TrustedDevice} (h : ProvesToResponder P party env cache m pub)
    (hf : s.devices.find? (deviceIdText P pub) = some r)
    (hk : r.publicKey.val ≠ (Fields.ofMessage m).publicKey.val) :
    ∃ msg sh, (performHandshakeResponder P party env.quiet).run ⟨some s, cache⟩ =
      .error (.keyChanged msg) sh := by
  have hscript : responderScript P party env.quiet = responderScript P party env := rfl
  rw [performHandshakeResponder_eq, hscript]
  obtain ⟨cache', hr⟩ : ∃ cache', ((responderScript P party env).perform P env.quiet).run
      ⟨some s, cache⟩ = _ := Script.perform_run_store h.read h.presents
  rw [hr, checkAndUpdateTrust_run_known hf, if_pos hk]
  exact ⟨_, _, rfl⟩

namespace Agreement

-- Of the handshake of the device `key` with bob, who signs the message number `n`: all that is computed
def Computed (key : Bytes) (n : UInt8) : Prop :=
  (Protocol.encodeJson prims (initMsg key)).isSome ∧
  (Protocol.encodeJson prims (finishMsg key (n + 1))).isSome ∧
  (expectMessage "handshake_init" (initMsg key)).toBool ∧
  (expectMessage "handshake_finish" (finishMsg key (n + 1))).toBool ∧
  computeDeviceId prims key = (init key).deviceId.val ∧
  Bytes.fromHex (init key).publicKey.val = some key ∧
  Bytes.fromHex ((initMsg key).text "ephemeral_key").val = some (prims.x25519.publicKey [3]) ∧
  (prims.x25519.exchange [4] (prims.x25519.publicKey [3])).isSome ∧
  key.length = 32 ∧
  computeResponderTranscript prims (init key) response = some (respTranscript key) ∧
  (device bobKey).identity.sign prims (respTranscript key) = bobKey ++ [n] ∧
  (encodeFrame prims (Protocol.makeHandshakeResponse response.deviceId response.publicKey
    response.ephemeralKey response.nonce response.senderName (signature bobKey n) .zero)).toBool ∧
  computeInitiatorTranscript (respTranscript key) (signature bobKey n).val =
    some (initTranscript key n) ∧
  prims.ed25519.verify key (key ++ [n + 1]) (initTranscript key n)

instance {key : Bytes} {n : UInt8} : Decidable (Computed key n) :=
  inferInstanceAs (Decidable (_ ∧ _))

theorem Computed.proves {key : Bytes} {n : UInt8} (h : Computed key n) :
    ProvesToResponder prims (device bobKey) (peerEnv key (n + 1)) shared.cache (initMsg key) key := by
  obtain ⟨hinit, hfin, he, he', hid, hkey, hx, hx', hl, ht, hsig, hframe, ht', hv⟩ := h
  obtain ⟨⟨⟩, he⟩ := exists_ok he
  obtain ⟨⟨⟩, he'⟩ := exists_ok he'
  obtain ⟨frame, hframe⟩ := exists_ok hframe
  have hread := awaitFrame_encodeJson "handshake_finish" (finishMsg_wellFormed key (n + 1)) hfin
  refine ⟨awaitFrame_encodeJson _ (initMsg_wellFormed key) hinit,
    ⟨he, rfl, verifyDeviceIdentity_eq_ok.mpr ⟨hkey, hid⟩⟩, hl, ?_, rfl,
    ⟨_, hx, prims.x25519.publicKey_length _, hx'⟩⟩
  refine ⟨respTranscript key, initTranscript key n, frame, finishMsg key (n + 1), key ++ [n + 1], ht, ?_,
    hread, he', ?_, Bytes.fromHex_hex _, hv⟩
  · rw [hsig]
    exact hframe
  · rw [hsig]
    exact ht'

theorem alice_proves : ProvesToResponder prims (device bobKey) (peerEnv aliceKey 1) shared.cache
    (initMsg aliceKey) aliceKey :=
  Computed.proves (n := 0) (by decide +kernel)

theorem carol_proves : ProvesToResponder prims (device bobKey) (peerEnv carolKey 3) shared.cache
    (initMsg carolKey) carolKey :=
  Computed.proves (n := 2) (by decide +kernel)

-- Bob after a handshake with alice, after approving her, and after the certificate for her next key, carol's

def aliceRow : TrustedDevice :=
  pendingRow (deviceIdText prims aliceKey) ⟨aliceKey.hex, (Bytes.hex_isAscii _).encodable⟩
    (.ofString "peer") .zero

def seen : TrustStore := ⟨⟨[aliceRow], by simp⟩, .empty⟩

theorem seen_step : TrustStep (.ofMessage (initMsg aliceKey)) .zero (some .empty) .pending (some seen) :=
  @TrustStep.firstSeen _ _ _ (deviceIdText prims aliceKey) _ _ _ rfl rfl rfl rfl rfl

theorem seen_reached : Reached prims seen [] := by
  obtain ⟨r, cache, hr, -⟩ := alice_proves.completes seen_step
  exact .responder .empty hr rfl

def approved : TrustStore := (Call.approve (deviceIdText prims aliceKey).val).after prims seen

def certificate : TransitionCertificate :=
  match createTransitionCertificate prims ⟨aliceKey⟩ ⟨carolKey⟩ .zero with
  | .ok cert => cert
  | .error _ => .signedWith [] [] [] []

theorem certificate_genuine :
    createTransitionCertificate prims ⟨aliceKey⟩ ⟨carolKey⟩ .zero = .ok certificate := by
  have h : (createTransitionCertificate prims ⟨aliceKey⟩ ⟨carolKey⟩ .zero).toBool := by decide +kernel
  simp only [certificate]
  generalize createTransitionCertificate prims ⟨aliceKey⟩ ⟨carolKey⟩ .zero = x at h ⊢
  match x, h with
  | .ok cert, _ => rfl

def rotated : TrustStore := (Call.recordRotation certificate .zero).after prims approved

theorem rotated_reached : Reached prims rotated [deviceIdText prims carolKey] := by
  have hr : ¬(Call.recordRotation certificate .zero).Raises prims approved :=
    Call.returns_of_isSome (by decide +kernel)
  have ht : approved.status? (deviceIdText prims aliceKey) = some .trusted := by decide +kernel
  have happroved : Reached prims approved [] := seen_reached.approve
  have halice : DeviceKeypair.publicKeyBytes ⟨aliceKey⟩ prims = aliceKey := rfl
  have hcarol : DeviceKeypair.publicKeyBytes ⟨carolKey⟩ prims = carolKey := rfl
  have h := happroved.rotate certificate_genuine hr
  rwa [halice, hcarol, if_pos ht] at h

end Agreement

open Agreement

-- Carol's key was introduced by alice, whom the user has approved; her first handshake is refused.
theorem key_pinning_rotated :
    Reached prims rotated [deviceIdText prims carolKey] ∧
    ProvesToResponder prims (device bobKey) (peerEnv carolKey 3) shared.cache (initMsg carolKey)
      carolKey ∧
    ∃ msg sh, (performHandshakeResponder prims (device bobKey) (peerEnv carolKey 3).quiet).run
      ⟨some rotated, shared.cache⟩ = .error (.keyChanged msg) sh := by
  refine ⟨rotated_reached, carol_proves, ?_⟩
  have hf : ∃ r, rotated.devices.find? (deviceIdText prims carolKey) = some r ∧
      r.publicKey.val = Base64.encode carolKey := by
    have h : (rotated.devices.find? (deviceIdText prims carolKey)).map (·.publicKey.val) =
        some (Base64.encode carolKey) := by
      decide +kernel
    simpa using h
  obtain ⟨r, hf, hk⟩ := hf
  exact carol_proves.keyChanged hf (hk ▸ by decide +kernel)

-- Alice comes back with her key in the same spelling.
theorem key_pinning_same_spelling :
    Reached prims seen [] ∧
    ProvesToResponder prims (device bobKey) (peerEnv aliceKey 1) shared.cache (initMsg aliceKey)
      aliceKey ∧
    Recognised prims [] aliceKey ((performHandshakeResponder prims (device bobKey)
      (peerEnv aliceKey 1).quiet).run ⟨some seen, shared.cache⟩) := by
  have h := key_pinning_iff prims seen [] seen_reached (device bobKey) (peerEnv aliceKey 1) shared.cache
    (initMsg aliceKey) aliceKey
  refine ⟨seen_reached, alice_proves, (h.right alice_proves).mpr fun r hr => ?_⟩
  cases hr
  rfl

end Handshake
