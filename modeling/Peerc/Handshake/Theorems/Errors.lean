import Peerc.Handshake.Theorems.Completes

-- Which exceptions leave a handshake

namespace Handshake

variable {P : Primitives} {α β : Type} {party : Party} {env : Env} {sh sh' : Shared} {m : Json}
  {pub : Bytes} {peer : Fields}

-- The subclasses of `HandshakeError`
def Failure.isHandshakeError : Failure → Bool
  | timeout _ | identityVerification _ | signatureVerification _ | deviceRevoked _ | keyChanged _
  | protocol _ => true
  | frame _ | store _ | valueError | unicodeEncodeError | connection => false

-- Nothing that the peer sends is the reason for these: the own message does not fit into a frame, or the
-- connection is lost while it is written.
def Failure.isLocal : Failure → Bool
  | frame _ | connection => true
  | _                    => false

def Failure.isExpected (e : Failure) : Bool :=
  e.isHandshakeError || e.isLocal

-- A part that raises nothing else
def Guarded (x : Except Failure α) : Prop :=
  ∀ e, x = .error e → e.isExpected

theorem guarded_ok {a : α} : Guarded (.ok a) :=
  nofun

theorem guarded_error {e : Failure} : Guarded (.error e : Except Failure α) ↔ e.isExpected :=
  ⟨fun h => h e rfl, fun h _ he => Except.error.inj he ▸ h⟩

theorem guarded_bind {x : Except Failure α} {f : α → Except Failure β} :
    Guarded (x >>= f) ↔ Guarded x ∧ ∀ a, x = .ok a → Guarded (f a) := by
  cases x
  case error e =>
    change Guarded (.error e) ↔ _
    rw [guarded_error, guarded_error]
    exact ⟨fun h => ⟨h, nofun⟩, And.left⟩
  case ok a =>
    change Guarded (f a) ↔ _
    refine ⟨fun h => ⟨guarded_ok, ?_⟩, fun h => h.right a rfl⟩
    rintro _ ⟨⟩
    exact h

theorem guarded_ofOption {e : Failure} (he : e.isExpected = false) {o : Option α} :
    Guarded (ofOption e o) ↔ ∃ a, o = some a := by
  cases o
  case none => simp [ofOption, guarded_error, he]
  case some a => simp [ofOption, guarded_ok]

-- What is inside a `try` block

theorem guarded_awaitFrame (name : String) (outcome : ReadOutcome) : Guarded (awaitFrame P name outcome) := by
  intro e he
  unfold awaitFrame at he
  split at he
  · cases he
    rfl
  · cases he
    rfl
  · split at he <;> cases he <;> rfl

theorem guarded_expectMessage (name : String) (m : Json) : Guarded (expectMessage name m) := by
  intro e he
  unfold expectMessage at he
  split at he
  · cases he
    rfl
  · split at he <;> cases he
    rfl

theorem guarded_verifyDeviceIdentity (d k : Str) : Guarded (verifyDeviceIdentity P d k) := by
  intro e he
  unfold verifyDeviceIdentity at he
  split at he
  · cases he
    rfl
  · dsimp only at he
    split at he <;> cases he
    rfl

theorem guarded_verifySignature (role : String) (s : Str) (t : Bytes) :
    Guarded (verifySignature P role pub s t) := by
  intro e he
  unfold verifySignature at he
  split at he
  · cases he
    rfl
  · split at he <;> cases he
    rfl

theorem guarded_ephemeralPublicFromHex (k : Str) : Guarded (ephemeralPublicFromHex k) := by
  intro e he
  unfold ephemeralPublicFromHex at he
  split at he
  · cases he
    rfl
  · split at he <;> cases he
    rfl

-- The own side

theorem guarded_drain (ok : Bool) : Guarded (drain ok) := by
  cases ok
  case false => exact guarded_error.mpr rfl
  case true => exact guarded_ok

theorem guarded_encodeFrame (m : Json) : Guarded (encodeFrame P m) := by
  unfold encodeFrame
  cases Protocol.encodeFrame P m
  case error e => exact guarded_error.mpr rfl
  case ok frame => exact guarded_ok

-- The key exchange is not in a `try` block.

-- A key that can be used at all gives a secret.
def Usable (P : Primitives) (ephemeral : Bytes) (key : Str) : Prop :=
  ∀ raw, Bytes.fromHex key = some raw → raw.length = 32 → P.x25519.exchange ephemeral raw ≠ none

theorem guarded_sharedSecret {ephemeral : Bytes} {key : Str} :
    Guarded (sharedSecret P ephemeral key) ↔ Usable P ephemeral key := by
  rw [sharedSecret, guarded_bind, and_iff_right (guarded_ephemeralPublicFromHex key)]
  simp only [ephemeralPublicFromHex_eq_ok, and_imp]
  refine forall_congr' fun raw => imp_congr_right fun _ => imp_congr_right fun _ => ?_
  cases P.x25519.exchange ephemeral raw
  case none => exact iff_of_false (fun h => Bool.false_ne_true (guarded_error.mp h)) (fun h => h rfl)
  case some secret => exact iff_of_true guarded_ok (Option.some_ne_none secret)

-- Nor is the trust store.

-- A store that does not know the device can save its name.
def Recordable (store : Option TrustStore) (peer : Fields) : Prop :=
  ∀ s, store = some s → (∀ d ∈ s.devices.rows, d.deviceId.val ≠ peer.deviceId.val) →
    peer.senderName.val.Encodable

-- A store that knows the device knows it with this key and has not revoked it.
def Tolerates (store : Option TrustStore) (peer : Fields) : Prop :=
  ∀ s, store = some s → ∀ d ∈ s.devices.rows, d.deviceId.val = peer.deviceId.val →
    d.publicKey.val = peer.publicKey.val ∧ d.status ≠ .revoked

-- How the trust step ends for texts that can be looked up
inductive TrustOutcome (peer : Fields) (now : Double) (sh : Shared) : Prop
  | admitted {dec : TrustDecision} {store : Option TrustStore} (step : TrustStep peer now sh.store dec store)
      (recordable : Recordable sh.store peer) (tolerates : Tolerates sh.store peer)
  | refused {e : Failure} (error : e.isHandshakeError) (recordable : Recordable sh.store peer)
      (refuses : ¬Tolerates sh.store peer)
      (run : (checkAndUpdateTrust peer.deviceId.val peer.publicKey.val peer.senderName.val now).run sh =
        .error e sh)
  | failed (unrecordable : ¬Recordable sh.store peer)
      (run : (checkAndUpdateTrust peer.deviceId.val peer.publicKey.val peer.senderName.val now).run sh =
        .error (.store .unicodeEncodeError) sh)

theorem trustOutcome (now : Double) (hd : peer.deviceId.val.Encodable) (hk : peer.publicKey.val.Encodable) :
    TrustOutcome peer now sh := by
  obtain ⟨store, cache⟩ := sh
  cases store
  case none => exact .admitted .none nofun nofun
  case some s =>
    let id : DbText := ⟨peer.deviceId.val, hd⟩
    have hrun {e : TrustError} (h : (TrustStore.checkAndUpdateTrust id.val peer.publicKey.val
        peer.senderName.val now).run s = .error e s) :
        (checkAndUpdateTrust peer.deviceId.val peer.publicKey.val peer.senderName.val now).run
          ⟨some s, cache⟩ = .error (.ofTrust e) ⟨some s, cache⟩ := by
      simp only [id] at h
      simp only [checkAndUpdateTrust, EStateM.run_bind, EStateM.run_get, h]
      rfl
    cases hf : s.devices.find? id
    case none =>
      have hn : ∀ d ∈ s.devices.rows, d.deviceId.val ≠ peer.deviceId.val := by
        intro d hd he
        exact Table.find?_eq_none_iff.mp hf (List.mem_map.mpr ⟨d, hd, Subtype.ext he⟩)
      by_cases he : peer.senderName.val.Encodable
      case pos =>
        obtain ⟨devices, hi⟩ := Table.insert?_of_find?_eq_none
          (r := TrustStore.pendingRow id ⟨_, hk⟩ ⟨_, he⟩ now) hf
        refine .admitted (.firstSeen rfl rfl rfl hf hi) (fun _ _ _ => he) ?_
        rintro _ ⟨⟩ d hd h
        exact (hn d hd h).elim
      case neg =>
        refine .failed (fun h => he (h s rfl hn)) ?_
        exact hrun (TrustStore.checkAndUpdateTrust_run_unstorable hf fun h => he h.right)
    case some r =>
      have hr : Recordable (some s) peer := by
        rintro _ ⟨⟩ hn
        exact (hn r (Table.mem_of_find? hf) (congrArg Subtype.val (Table.key_of_find? hf))).elim
      have ht : Tolerates (some s) peer ↔ r.publicKey.val = peer.publicKey.val ∧ r.status ≠ .revoked := by
        refine ⟨fun h => h s rfl r (Table.mem_of_find? hf) (congrArg Subtype.val (Table.key_of_find? hf)), ?_⟩
        rintro h _ ⟨⟩ d hd he
        have hid : d.deviceId = id := Subtype.ext he
        cases (hid ▸ Table.find?_of_mem hd).symm.trans hf
        exact h
      have hx : (TrustStore.checkAndUpdateTrust id.val peer.publicKey.val peer.senderName.val now).run s = _ :=
        TrustStore.checkAndUpdateTrust_run_known hf
      by_cases hp : r.publicKey.val = peer.publicKey.val
      case neg =>
        rw [if_pos hp] at hx
        exact .refused rfl hr (fun h => hp (ht.mp h).left) (hrun hx)
      by_cases hs : r.status = .revoked
      case pos =>
        rw [if_neg (not_not.mpr hp), if_pos hs] at hx
        exact .refused rfl hr (fun h => (ht.mp h).right hs) (hrun hx)
      exact .admitted (.touch rfl hf hp hs) hr (ht.mpr ⟨hp, hs⟩)

-- The message that names the peer

-- An error of the trust step is the error of the check.
theorem checkPeer_run_of_presents {name : String} (role : String) {now : Clocks} {e : Failure} {sh' : Shared}
    (h : Presents P name sh.cache now.cache m pub)
    (ht : (checkAndUpdateTrust (Fields.ofMessage m).deviceId.val (Fields.ofMessage m).publicKey.val
        (Fields.ofMessage m).senderName.val now.trust).run
      { sh with cache := (sh.cache.checkAndAdd (Fields.ofMessage m).nonce now.cache).snd } = .error e sh') :
    (checkPeer P name role m now).run sh = .error e sh' := by
  simp only [checkPeer, EStateM.run_bind, liftExcept_run, h.expected, checkNonce_run, h.fresh, if_true,
    h.identity, ht]

theorem checkPeer_run_of_not_presents {name : String} (role : String) {now : Clocks}
    (h : ∀ pub, ¬Presents P name sh.cache now.cache m pub) :
    ∃ e sh', (checkPeer P name role m now).run sh = .error e sh' ∧ e.isExpected := by
  simp only [checkPeer, EStateM.run_bind, liftExcept_run, checkNonce_run]
  cases he : expectMessage name m
  case error e => exact ⟨e, _, rfl, guarded_expectMessage name m e he⟩
  by_cases hn : (sh.cache.checkAndAdd (Fields.ofMessage m).nonce now.cache).fst
  case neg =>
    simp only [if_neg hn]
    exact ⟨_, _, rfl, rfl⟩
  cases hi : verifyDeviceIdentity P (Fields.ofMessage m).deviceId.val (Fields.ofMessage m).publicKey.val
  case error e =>
    simp only [if_pos hn]
    exact ⟨e, _, rfl, guarded_verifyDeviceIdentity _ _ e hi⟩
  case ok pub => exact (h pub ⟨he, hn, hi⟩).elim

-- Both texts that are looked up have been checked.
theorem Presents.encodable {name : String} {cache : NonceCache} {now : Double}
    (h : Presents P name cache now m pub) :
    (Fields.ofMessage m).deviceId.val.Encodable ∧ (Fields.ofMessage m).publicKey.val.Encodable := by
  obtain ⟨hk, hd⟩ := verifyDeviceIdentity_eq_ok.mp h.identity
  refine ⟨?_, (Bytes.fromHex_isAscii hk).encodable⟩
  rw [← hd]
  exact (Bytes.fromHex_isAscii (Bytes.fromHex_hex _)).encodable

theorem Presents.unique {name : String} {cache : NonceCache} {now : Double} {pub' : Bytes}
    (h : Presents P name cache now m pub) (h' : Presents P name cache now m pub') : pub' = pub :=
  Except.ok.inj (h'.identity.symm.trans h.identity)

-- The function returns or raises a `HandshakeError`, unless its own side fails.
def Handled (x : EStateM.Result Failure Shared Result) : Prop :=
  ∀ e sh', x = .error e sh' → e.isHandshakeError ∨ e.isLocal

theorem handled_ok {r : Result} : Handled (.ok r sh) :=
  nofun

theorem handled_error {e : Failure} : Handled (.error e sh) ↔ e.isExpected := by
  rw [Failure.isExpected, Bool.or_eq_true]
  exact ⟨fun h => h e sh rfl, fun h _ _ he => (EStateM.Result.error.inj he).left ▸ h⟩

theorem handled_bind {x : Except Failure α} {f : α → HandshakeM Result} :
    Handled ((liftExcept x >>= f).run sh) ↔ Guarded x ∧ ∀ a, x = .ok a → Handled ((f a).run sh) := by
  rw [EStateM.run_bind, liftExcept_run]
  cases x
  case error e => exact handled_error.trans (guarded_error.symm.trans ⟨fun h => ⟨h, nofun⟩, And.left⟩)
  case ok a =>
    refine ⟨fun h => ⟨guarded_ok, ?_⟩, fun h => h.right a rfl⟩
    rintro _ ⟨⟩
    exact h

-- After the trust step only the last two parts can raise.
theorem Script.handled_of_admits {script : Script α} {dec : TrustDecision} {store : Option TrustStore}
    (h : script.Admits P env sh m pub dec store) :
    Handled ((script.perform P env).run sh) ↔ Guarded (script.reply m pub dec >>= script.finish) := by
  obtain ⟨cache, hrun⟩ := perform_run h
  rw [hrun]
  cases script.reply m pub dec
  case error e => exact handled_error.trans guarded_error.symm
  case ok sent =>
    change _ ↔ Guarded (script.finish sent)
    dsimp only
    cases script.finish sent
    case error e => exact handled_error.trans guarded_error.symm
    case ok r => exact iff_of_true handled_ok guarded_ok

theorem Script.handled_iff {script : Script α} {G : Json → Bytes → Prop} (hr : Guarded script.read)
    (hg : ∀ m pub dec, Guarded (script.reply m pub dec >>= script.finish) ↔ G m pub) :
    Handled ((script.perform P env).run sh) ↔
      ∀ m pub, script.read = .ok m → Presents P script.name sh.cache env.now.cache m pub →
        Recordable (storeBefore P env sh) (.ofMessage m) ∧
        (Tolerates (storeBefore P env sh) (.ofMessage m) → G m pub) := by
  cases hm : script.read
  case error e =>
    have hp : (script.perform P env).run sh = .error e ⟨storeBefore P env sh, sh.cache⟩ := by
      simp only [perform, interfere, EStateM.run_bind, EStateM.run_modify, liftExcept_run, hm]
      rfl
    rw [hp, handled_error]
    refine iff_of_true (hr e hm) ?_
    rintro _ _ ⟨⟩
  case ok m =>
    have hp {e : Failure} {sh' : Shared} (h : (checkPeer P script.name script.role m env.now).run
        ⟨storeBefore P env sh, sh.cache⟩ = .error e sh') : (script.perform P env).run sh = .error e sh' := by
      simp only [storeBefore] at h
      simp only [perform, interfere, EStateM.run_bind, EStateM.run_modify, liftExcept_run, hm, h]
    by_cases hpr : ∃ pub, Presents P script.name sh.cache env.now.cache m pub
    case neg =>
      have hn : ∀ pub, ¬Presents P script.name sh.cache env.now.cache m pub := not_exists.mp hpr
      obtain ⟨e, sh', hc, he⟩ : ∃ e sh', (checkPeer P script.name script.role m env.now).run
          ⟨storeBefore P env sh, sh.cache⟩ = .error e sh' ∧ e.isExpected :=
        checkPeer_run_of_not_presents script.role hn
      rw [hp hc, handled_error]
      refine iff_of_true he ?_
      rintro _ pub ⟨⟩ hpres
      exact (hn pub hpres).elim
    case pos =>
      obtain ⟨pub, hpres⟩ := hpr
      have hc {e : Failure} {sh' : Shared} (h : _) : (checkPeer P script.name script.role m env.now).run
          ⟨storeBefore P env sh, sh.cache⟩ = .error e sh' := checkPeer_run_of_presents script.role hpres h
      have ht : TrustOutcome (.ofMessage m) env.now.trust ⟨storeBefore P env sh,
          (sh.cache.checkAndAdd (Fields.ofMessage m).nonce env.now.cache).snd⟩ :=
        trustOutcome _ hpres.encodable.left hpres.encodable.right
      cases ht
      case admitted dec store hstep hrec htol =>
        rw [handled_of_admits ⟨hm, hpres, hstep⟩, hg]
        refine ⟨?_, fun h => (h m pub rfl hpres).right htol⟩
        rintro h _ pub' ⟨⟩ hpres'
        cases hpres.unique hpres'
        exact ⟨hrec, fun _ => h⟩
      case refused e he hrec href hrun =>
        rw [hp (hc hrun), handled_error]
        refine iff_of_true (Bool.or_eq_true_iff.mpr (.inl he)) ?_
        rintro _ pub' ⟨⟩ hpres'
        exact ⟨hrec, fun h => (href h).elim⟩
      case failed hrec hrun =>
        rw [hp (hc hrun), handled_error]
        exact iff_of_false Bool.false_ne_true fun h => hrec (h m pub rfl hpres).left

-- The two roles

-- The signature is one of the device over `t`.
def SignedBy (P : Primitives) (pub : Bytes) (signature : Str) (t : Bytes) : Prop :=
  ∃ sig, Bytes.fromHex signature = some sig ∧ P.ed25519.verify pub sig t

theorem SignedBy.isAscii {signature : Str} {t : Bytes} (h : SignedBy P pub signature t) : signature.IsAscii := by
  obtain ⟨sig, hs, -⟩ := h
  exact Bytes.fromHex_isAscii hs

theorem guarded_publicKeyFromBytes :
    Guarded (ofOption .valueError (publicKeyFromBytes pub)) ↔ pub.length = 32 := by
  rw [guarded_ofOption rfl]
  simp only [publicKeyFromBytes_eq_some, exists_and_left, exists_eq', and_true]

theorem guarded_computeResponderTranscript (init response : Fields) :
    Guarded (ofOption .valueError (computeResponderTranscript P init response)) :=
  (guarded_ofOption rfl).mpr (computeResponderTranscript_isSome init response)

theorem guarded_computeInitiatorTranscript (t : Bytes) {signature : Str} (h : signature.IsAscii) :
    Guarded (ofOption .unicodeEncodeError (computeInitiatorTranscript t signature)) :=
  (guarded_ofOption rfl).mpr (by simp [computeInitiatorTranscript, Str.encodeAscii, h])

theorem guarded_computeFinalTranscriptHash (t : Bytes) {signature : Str} (h : signature.IsAscii) :
    Guarded (ofOption .unicodeEncodeError (computeFinalTranscriptHash P t signature)) :=
  (guarded_ofOption rfl).mpr (by simp [computeFinalTranscriptHash, Str.encodeAscii, h])

theorem guarded_initiatorStart {ephemeral nonce : Bytes} {now : Double} :
    Guarded (initiatorStart P party ephemeral nonce now) :=
  guarded_bind.mpr ⟨guarded_encodeFrame _, fun _ _ => guarded_ok⟩

theorem guarded_initiatorReply {st : InitSent} {dec : TrustDecision} {now : Double} :
    Guarded (initiatorReply P st m pub dec now) ↔ pub.length = 32 := by
  have hs : Guarded (initiatorSign P st m pub dec) ↔ pub.length = 32 := by
    simp only [initiatorSign, guarded_bind, guarded_computeResponderTranscript, guarded_publicKeyFromBytes,
      guarded_verifySignature, true_and, ofOption_eq_ok, publicKeyFromBytes_eq_some]
    obtain ⟨t, ht⟩ := computeResponderTranscript_isSome (P := P) st.init (.ofMessage m)
    refine ⟨fun h => (h t ht).left, fun h _ _ => ⟨h, ?_⟩⟩
    rintro _ ⟨-, rfl⟩ _ hsig
    have hsig : SignedBy P pub _ _ := verifySignature_eq_ok.mp hsig
    exact ⟨guarded_computeInitiatorTranscript _ hsig.isAscii, fun _ _ => guarded_ok⟩
  simp only [initiatorReply, guarded_bind, hs, guarded_encodeFrame, true_and]
  exact and_iff_left fun _ _ _ _ => guarded_ok

theorem guarded_initiatorFinish {st : FinishSent} (h : st.mySignature.val.IsAscii) :
    Guarded (initiatorFinish P st) ↔ Usable P st.ephemeral st.response.ephemeralKey.val := by
  simp only [initiatorFinish, guarded_bind, guarded_sharedSecret,
    guarded_computeFinalTranscriptHash st.transcript h, true_and]
  exact and_iff_left fun _ _ _ _ => guarded_ok

theorem guarded_responderReply {ephemeral nonce : Bytes} {dec : TrustDecision} {now : Double} :
    Guarded (responderReply P party ephemeral nonce m pub dec now) := by
  have hs : Guarded (responderSign P party ephemeral nonce m pub dec) :=
    guarded_bind.mpr ⟨guarded_computeResponderTranscript _ _, fun _ _ => guarded_ok⟩
  exact guarded_bind.mpr ⟨hs, fun _ _ => guarded_bind.mpr ⟨guarded_encodeFrame _, fun _ _ => guarded_ok⟩⟩

theorem guarded_responderOnFinish {st : ResponseSent} {f : Json} {t : Bytes}
    (ht : computeInitiatorTranscript st.transcript st.mySignature.val = some t) :
    Guarded (responderOnFinish P st f) ↔ (expectMessage "handshake_finish" f = .ok () →
      st.peerPubBytes.length = 32 ∧ (SignedBy P st.peerPubBytes (f.text "signature").val t →
        Usable P st.ephemeral st.init.ephemeralKey.val)) := by
  have hg : Guarded (ofOption .unicodeEncodeError (some t)) := guarded_ok
  simp only [responderOnFinish, guarded_bind, guarded_expectMessage, ht, hg, guarded_publicKeyFromBytes,
    guarded_verifySignature, guarded_sharedSecret, true_and, ofOption_eq_ok, publicKeyFromBytes_eq_some]
  constructor
  · intro h he
    obtain ⟨hl, h⟩ := h () he t rfl
    exact ⟨hl, fun hs => (h _ ⟨hl, rfl⟩ () (verifySignature_eq_ok.mpr hs)).left⟩
  · rintro h _ he _ ⟨⟩
    obtain ⟨hl, h⟩ := h he
    refine ⟨hl, ?_⟩
    rintro _ ⟨-, rfl⟩ _ hs
    have hs : SignedBy P st.peerPubBytes _ _ := verifySignature_eq_ok.mp hs
    exact ⟨h hs, fun _ _ => ⟨guarded_computeFinalTranscriptHash _ hs.isAscii, fun _ _ => guarded_ok⟩⟩

theorem fits_iff : Fits P m ↔ ∃ frame, encodeFrame P m = .ok frame := by
  refine ⟨Fits.encodeFrame, ?_⟩
  rintro ⟨frame, h⟩
  have h := encodeFrame_eq_ok.mp h
  unfold Protocol.encodeFrame at h
  split at h
  · cases h
  · rename_i payload he
    by_cases hl : payload.length > Protocol.maxMessageSize
    · rw [if_pos hl] at h
      cases h
    · exact ⟨payload, he, Nat.not_lt.mp hl⟩

-- What a response may hold: the key has its length, and if the signature is the device's and the finish can
-- be sent, the exchange gives a secret.
def InitiatorSafe (P : Primitives) (party : Party) (env : Env) (m : Json) (pub : Bytes) : Prop :=
  let init := initFields P party env.ephemeral env.nonce
  let signature := finishSignature P party init (.ofMessage m) (m.text "signature")
  pub.length = 32 ∧
    (SignedBy P pub (m.text "signature").val (responderTranscript P init (.ofMessage m)) →
      Fits P (Protocol.makeHandshakeFinish signature env.now.send) → env.drain₂ →
      Usable P env.ephemeral (Fields.ofMessage m).ephemeralKey.val)

theorem guarded_initiator {st : InitSent} {dec : TrustDecision}
    (h : st = ⟨party, env.ephemeral, initFields P party env.ephemeral env.nonce⟩) :
    Guarded ((initiatorScript P st env).reply m pub dec >>= (initiatorScript P st env).finish) ↔
      InitiatorSafe P party env m pub := by
  subst h
  have ht := computeResponderTranscript_eq_responderTranscript (P := P)
    (initFields P party env.ephemeral env.nonce) (.ofMessage m)
  rw [guarded_bind, initiatorScript, guarded_initiatorReply]
  refine and_congr_right fun hl => ?_
  constructor
  · intro h hs hf hd
    obtain ⟨frame, hf⟩ := fits_iff.mp hf
    have hi := computeInitiatorTranscript_eq_initiatorTranscript (P := P)
      (initFields P party env.ephemeral env.nonce) (.ofMessage m) hs.isAscii
    have h := h (_, frame) (initiatorReply_eq_ok.mpr ⟨initiatorSign_eq_ok.mpr ⟨_, _, ⟨hl, ht, hs, hi⟩, rfl⟩, hf⟩)
    have h := (guarded_bind.mp h).right () (drain_eq_ok.mpr hd)
    exact (guarded_initiatorFinish (Bytes.hex_isAscii _)).mp h
  · rintro h ⟨st', frame⟩ hr
    obtain ⟨hsign, hf⟩ := initiatorReply_eq_ok.mp hr
    obtain ⟨t, t', ha, rfl⟩ := initiatorSign_eq_ok.mp hsign
    cases ht.symm.trans ha.responder
    have hs : SignedBy P pub _ _ := ha.signature
    cases (computeInitiatorTranscript_eq_initiatorTranscript _ _ hs.isAscii).symm.trans ha.initiator
    refine guarded_bind.mpr ⟨guarded_drain _, fun _ hd => ?_⟩
    exact (guarded_initiatorFinish (Bytes.hex_isAscii _)).mpr
      (h hs (fits_iff.mpr ⟨frame, hf⟩) (drain_eq_ok.mp hd))

-- What an init may hold if the response can be sent, with the finish that comes back
def ResponderSafe (P : Primitives) (party : Party) (env : Env) (m : Json) (pub : Bytes) : Prop :=
  let response := responseFields P party env.ephemeral env.nonce
  let signature := responseSignature P party (.ofMessage m) response
  Fits P (Protocol.makeHandshakeResponse response.deviceId response.publicKey response.ephemeralKey
    response.nonce response.senderName signature env.now.send) → env.drain₂ →
    ∀ f, awaitFrame P "handshake_finish" env.second = .ok f → expectMessage "handshake_finish" f = .ok () →
      pub.length = 32 ∧
        (SignedBy P pub (f.text "signature").val (initiatorTranscript P (.ofMessage m) response signature) →
          Usable P env.ephemeral (Fields.ofMessage m).ephemeralKey.val)

theorem guarded_responder {dec : TrustDecision} :
    Guarded ((responderScript P party env).reply m pub dec >>= (responderScript P party env).finish) ↔
      ResponderSafe P party env m pub := by
  let response := responseFields P party env.ephemeral env.nonce
  have ht := computeResponderTranscript_eq_responderTranscript (P := P) (.ofMessage m) response
  have hi : computeInitiatorTranscript _ (responseSignature P party (.ofMessage m) response).val = _ :=
    computeInitiatorTranscript_eq_initiatorTranscript (P := P) (.ofMessage m) response (Bytes.hex_isAscii _)
  rw [guarded_bind, responderScript, and_iff_right guarded_responderReply]
  constructor
  · intro h hf hd f hread
    obtain ⟨frame, hf⟩ := fits_iff.mp hf
    have h := h (_, frame) (responderReply_eq_ok.mpr ⟨responderSign_eq_ok.mpr ⟨_, ht, rfl⟩, hf⟩)
    have h := (guarded_bind.mp h).right () (drain_eq_ok.mpr hd)
    have h := (guarded_bind.mp h).right f hread
    exact (guarded_responderOnFinish hi).mp h
  · rintro h ⟨st, frame⟩ hr
    obtain ⟨hsign, hf⟩ := responderReply_eq_ok.mp hr
    obtain ⟨t, ht', rfl⟩ := responderSign_eq_ok.mp hsign
    cases ht.symm.trans ht'
    refine guarded_bind.mpr ⟨guarded_drain _, fun _ hd => guarded_bind.mpr ⟨guarded_awaitFrame _ _, ?_⟩⟩
    intro f hread
    exact (guarded_responderOnFinish hi).mpr (h (fits_iff.mpr ⟨frame, hf⟩) (drain_eq_ok.mp hd) f hread)

-- The conditions under which every exception of a handshake is a `HandshakeError`

def InitiatorHandles (P : Primitives) (party : Party) (env : Env) (sh : Shared) : Prop :=
  let init := initFields P party env.ephemeral env.nonce
  Fits P (Protocol.makeHandshakeInit init.deviceId init.publicKey init.ephemeralKey init.nonce init.senderName
    env.start) → env.drain₁ →
    ∀ m pub, awaitFrame P "handshake_response" env.first = .ok m →
      Presents P "handshake_response" sh.cache env.now.cache m pub →
      Recordable (Script.storeBefore P env sh) (.ofMessage m) ∧
      (Tolerates (Script.storeBefore P env sh) (.ofMessage m) → InitiatorSafe P party env m pub)

def ResponderHandles (P : Primitives) (party : Party) (env : Env) (sh : Shared) : Prop :=
  ∀ m pub, awaitFrame P "handshake_init" env.first = .ok m →
    Presents P "handshake_init" sh.cache env.now.cache m pub →
    Recordable (Script.storeBefore P env sh) (.ofMessage m) ∧
    (Tolerates (Script.storeBefore P env sh) (.ofMessage m) → ResponderSafe P party env m pub)

theorem handled_initiatorScript {st : InitSent}
    (h : st = ⟨party, env.ephemeral, initFields P party env.ephemeral env.nonce⟩) :
    Handled (((initiatorScript P st env).perform P env).run sh) ↔ (env.drain₁ →
      ∀ m pub, awaitFrame P "handshake_response" env.first = .ok m →
        Presents P "handshake_response" sh.cache env.now.cache m pub →
        Recordable (Script.storeBefore P env sh) (.ofMessage m) ∧
        (Tolerates (Script.storeBefore P env sh) (.ofMessage m) → InitiatorSafe P party env m pub)) := by
  have hread : Guarded (initiatorScript P st env).read :=
    guarded_bind.mpr ⟨guarded_drain _, fun _ _ => guarded_awaitFrame _ _⟩
  rw [Script.handled_iff hread fun m pub dec => guarded_initiator h]
  constructor
  · exact fun h hd m pub hm => h m pub (Except.bind_eq_ok.mpr ⟨(), drain_eq_ok.mpr hd, hm⟩)
  · intro h m pub hm
    obtain ⟨_, hd, hm⟩ := Except.bind_eq_ok.mp hm
    exact h (drain_eq_ok.mp hd) m pub hm

theorem handled_initiator :
    Handled ((performHandshakeInitiator P party env).run sh) ↔ InitiatorHandles P party env sh := by
  rw [performHandshakeInitiator_eq, handled_bind, and_iff_right guarded_initiatorStart]
  constructor
  · intro h hf
    obtain ⟨frame, hf⟩ := fits_iff.mp hf
    refine (handled_initiatorScript rfl).mp (h (_, frame) ?_)
    simp only [initiatorStart, hf]
    rfl
  · rintro h ⟨st, frame⟩ hs
    obtain ⟨_, hf, -⟩ := Except.bind_eq_ok.mp hs
    exact (handled_initiatorScript (initiatorStart_eq_ok hs)).mpr (h (fits_iff.mpr ⟨_, hf⟩))

theorem handled_responder :
    Handled ((performHandshakeResponder P party env).run sh) ↔ ResponderHandles P party env sh := by
  rw [performHandshakeResponder_eq]
  exact Script.handled_iff (guarded_awaitFrame _ _) fun m pub dec => guarded_responder

-- Both functions return or raise a `HandshakeError` under exactly these conditions, unless their own side
-- fails.
theorem handshake_errors_iff (P : Primitives) (party : Party) (env : Env) (sh : Shared) :
    (Handled ((performHandshakeInitiator P party env).run sh) ↔ InitiatorHandles P party env sh) ∧
    (Handled ((performHandshakeResponder P party env).run sh) ↔ ResponderHandles P party env sh) :=
  ⟨handled_initiator, handled_responder⟩

namespace Escape

-- Short signatures, and an exchange that fails if its value is zero
def prims : Primitives := { Loopback.prims with x25519 := .transparent }

inductive Kind
  | valueError
  | unicodeEncodeError
  deriving DecidableEq

def Kind.failure : Kind → Failure
  | valueError         => .valueError
  | unicodeEncodeError => .store .unicodeEncodeError

def raised : EStateM.Result Failure Shared Result → Option Kind
  | .error .valueError _                  => some .valueError
  | .error (.store .unicodeEncodeError) _ => some .unicodeEncodeError
  | _                                     => none

theorem exists_of_raised {x : EStateM.Result Failure Shared Result} (kind : Kind) (h : raised x = some kind) :
    ∃ sh', x = .error kind.failure sh' := by
  unfold raised at h
  split at h <;> cases h <;> exact ⟨_, rfl⟩

-- Alice starts a handshake, and carol answers.

open Agreement (device aliceKey carolKey clocks)

def shared (store : Option TrustStore) : Shared := ⟨store, ⟨NonceCache.defaultTtl, []⟩⟩

def answer (response : Fields) (signature : Text) : Json :=
  Protocol.makeHandshakeResponse response.deviceId response.publicKey response.ephemeralKey response.nonce
    response.senderName signature .zero

def aliceEnv (m : Json) : Env where
  ephemeral := [3]
  nonce     := [5]
  start     := .zero
  now       := clocks
  before    := []
  drain₁    := true
  first     := .payload ((Protocol.encodeJson prims m).getD [])
  after     := []
  drain₂    := true
  second    := .timeout

def response (ephemeral : Bytes) : Fields := responseFields prims (device carolKey) ephemeral [6]

-- A device id is the digest of any bytes.
def shortKey : Fields :=
  { response [4] with deviceId := (prims.sha256 [7]).hexText, publicKey := Bytes.hexText [7] }

def surrogate : Fields :=
  { response [4] with senderName := ⟨[0xD800], by decide⟩ }

def perform (store : Option TrustStore) (m : Json) : EStateM.Result Failure Shared Result :=
  (performHandshakeInitiator prims (device aliceKey) (aliceEnv m)).run (shared store)

-- Carol's signature on an answer with alice's own ephemeral key, for which the exchange gives zeros
def signature : Text :=
  responseSignature prims (device carolKey) (initFields prims (device aliceKey) [3] [5]) (response [3])

end Escape

open Escape in
theorem handshake_errors_escape :
    (∃ sh', perform none (answer shortKey (.ofString "00")) = .error .valueError sh') ∧
    (∃ sh', perform none (answer (response [3]) signature) = .error .valueError sh') ∧
    (∃ sh', perform (some .empty) (answer surrogate (.ofString "00")) =
      .error (.store .unicodeEncodeError) sh') ∧
    Failure.isExpected .valueError = false ∧ Failure.isExpected (.store .unicodeEncodeError) = false := by
  refine ⟨exists_of_raised .valueError ?_, exists_of_raised .valueError ?_,
    exists_of_raised .unicodeEncodeError ?_, rfl, rfl⟩
  · decide +kernel
  · decide +kernel
  · decide +kernel

end Handshake
