import Peerc.Lib.Refines
import Peerc.Handshake.Basic

-- What it takes for each phase to succeed, and what a phase does to the shared state

namespace Handshake

variable {P : Primitives} {sh sh' : Shared} {α : Type} {pub secret : Bytes} {d k : Str}

theorem ofOption_eq_ok {e : Failure} {o : Option α} {a : α} : ofOption e o = .ok a ↔ o = some a := by
  cases o <;> simp [ofOption]

theorem verifyDeviceIdentity_eq_ok : verifyDeviceIdentity P d k = .ok pub ↔
    Bytes.fromHex k = some pub ∧ computeDeviceId P pub = d := by
  simp only [verifyDeviceIdentity]
  cases Bytes.fromHex k
  case none => simp
  case some b =>
    by_cases h : computeDeviceId P b = d
    · simp only [h, ne_eq, not_true_eq_false, if_false, Except.ok.injEq, Option.some.injEq]
      exact ⟨fun hb => ⟨hb, hb ▸ h⟩, And.left⟩
    · simp only [h, ne_eq, not_false_eq_true, if_true, reduceCtorEq, false_iff, Option.some.injEq]
      exact fun ⟨hb, hd⟩ => h (hb ▸ hd)

theorem verifySignature_eq_ok {role : String} {s : Str} {t : Bytes} :
    verifySignature P role pub s t = .ok () ↔
      ∃ sig, Bytes.fromHex s = some sig ∧ P.ed25519.verify pub sig t := by
  simp only [verifySignature]
  cases Bytes.fromHex s
  case none => simp
  case some b => by_cases h : P.ed25519.verify pub b t <;> simp [h]

theorem ephemeralPublicFromHex_eq_ok {raw : Bytes} : ephemeralPublicFromHex k = .ok raw ↔
    Bytes.fromHex k = some raw ∧ raw.length = 32 := by
  simp only [ephemeralPublicFromHex]
  cases Bytes.fromHex k
  case none => simp
  case some b =>
    by_cases h : b.length = 32
    · simp only [h, ne_eq, not_true_eq_false, if_false, Except.ok.injEq, Option.some.injEq]
      exact ⟨fun hb => ⟨hb, hb ▸ h⟩, And.left⟩
    · simp only [h, ne_eq, not_false_eq_true, if_true, reduceCtorEq, false_iff, Option.some.injEq]
      exact fun ⟨hb, hd⟩ => h (hb ▸ hd)

theorem sharedSecret_eq_ok {ephemeral : Bytes} : sharedSecret P ephemeral k = .ok secret ↔
    ∃ raw, Bytes.fromHex k = some raw ∧ raw.length = 32 ∧
      P.x25519.exchange ephemeral raw = some secret := by
  simp only [sharedSecret, Except.bind_eq_ok, ephemeralPublicFromHex_eq_ok]
  constructor
  · rintro ⟨raw, ⟨h, hl⟩, he⟩
    cases hx : P.x25519.exchange ephemeral raw
    case none => simp [hx, throw, throwThe, MonadExceptOf.throw] at he
    case some b =>
      simp only [hx, pure, Except.pure, Except.ok.injEq] at he
      exact ⟨raw, h, hl, he ▸ hx⟩
  · rintro ⟨raw, h, hl, hx⟩
    exact ⟨raw, ⟨h, hl⟩, by simp [hx, pure, Except.pure]⟩

theorem publicKeyFromBytes_eq_some {b : Bytes} :
    publicKeyFromBytes b = some pub ↔ b.length = 32 ∧ b = pub := by
  simp [publicKeyFromBytes]

-- The initiator

theorem initiatorStart_eq_ok {party : Party} {ephemeral nonce frame : Bytes} {now : Double}
    {st : InitSent} (h : initiatorStart P party ephemeral nonce now = .ok (st, frame)) :
    st = ⟨party, ephemeral, initFields P party ephemeral nonce⟩ := by
  simp only [initiatorStart, Except.bind_eq_ok, pure, Except.pure, Except.ok.injEq,
    Prod.mk.injEq] at h
  obtain ⟨_, -, h, -⟩ := h
  exact h.symm

-- The checks of steps 7 and 8
structure Accepts (P : Primitives) (st : InitSent) (respMsg : Json) (pub respTranscript : Bytes)
    (transcript : Bytes) : Prop where
  length     : pub.length = 32
  responder  : computeResponderTranscript P st.init (.ofMessage respMsg) = some respTranscript
  signature  : ∃ sig, Bytes.fromHex (respMsg.text "signature").val = some sig ∧
    P.ed25519.verify pub sig respTranscript
  initiator  : computeInitiatorTranscript respTranscript (respMsg.text "signature").val =
    some transcript

theorem initiatorSign_eq_ok {st : InitSent} {m : Json} {dec : TrustDecision} {st' : FinishSent} :
    initiatorSign P st m pub dec = .ok st' ↔
      ∃ respTranscript transcript, Accepts P st m pub respTranscript transcript ∧
        st' = { st with
          response      := .ofMessage m
          signature     := m.text "signature"
          transcript
          mySignature   := (st.party.identity.sign P transcript).hexText
          trustDecision := dec } := by
  simp only [initiatorSign, Except.bind_eq_ok, ofOption_eq_ok, publicKeyFromBytes_eq_some, pure,
    Except.pure, Except.ok.injEq]
  constructor
  · rintro ⟨t, ht, _, ⟨hl, rfl⟩, _, hs, t', ht', rfl⟩
    exact ⟨t, t', ⟨hl, ht, verifySignature_eq_ok.mp hs, ht'⟩, rfl⟩
  · rintro ⟨t, t', ⟨hl, ht, hs, ht'⟩, rfl⟩
    exact ⟨t, ht, pub, ⟨hl, rfl⟩, (), verifySignature_eq_ok.mpr hs, t', ht', rfl⟩

theorem initiatorReply_eq_ok {st : InitSent} {m : Json} {dec : TrustDecision} {now : Double}
    {st' : FinishSent} {frame : Bytes} : initiatorReply P st m pub dec now = .ok (st', frame) ↔
      initiatorSign P st m pub dec = .ok st' ∧
      encodeFrame P (Protocol.makeHandshakeFinish st'.mySignature now) = .ok frame := by
  simp only [initiatorReply, Except.bind_eq_ok, pure, Except.pure, Except.ok.injEq, Prod.mk.injEq]
  constructor
  · rintro ⟨st', hs, frame, hf, rfl, rfl⟩
    exact ⟨hs, hf⟩
  · rintro ⟨hs, hf⟩
    exact ⟨st', hs, frame, hf, rfl, rfl⟩

theorem initiatorFinish_eq_ok {st : FinishSent} {r : Result} : initiatorFinish P st = .ok r ↔
    ∃ secret hash, sharedSecret P st.ephemeral st.response.ephemeralKey.val = .ok secret ∧
      computeFinalTranscriptHash P st.transcript st.mySignature.val = some hash ∧
      r = ⟨st.response.deviceId, st.response.publicKey, st.response.senderName, secret, hash,
        st.trustDecision⟩ := by
  simp only [initiatorFinish, Except.bind_eq_ok, ofOption_eq_ok, pure, Except.pure,
    Except.ok.injEq]
  constructor
  · rintro ⟨secret, hs, hash, hh, rfl⟩
    exact ⟨secret, hash, hs, hh, rfl⟩
  · rintro ⟨secret, hash, hs, hh, rfl⟩
    exact ⟨secret, hs, hash, hh, rfl⟩

-- The responder

theorem responderSign_eq_ok {party : Party} {ephemeral nonce : Bytes} {m : Json}
    {dec : TrustDecision} {st : ResponseSent} :
    responderSign P party ephemeral nonce m pub dec = .ok st ↔
      ∃ transcript, computeResponderTranscript P (.ofMessage m)
          (responseFields P party ephemeral nonce) = some transcript ∧
        st = ⟨party, ephemeral, .ofMessage m, responseFields P party ephemeral nonce, pub, transcript,
          (party.identity.sign P transcript).hexText, dec⟩ := by
  simp only [responderSign, Except.bind_eq_ok, ofOption_eq_ok, pure, Except.pure, Except.ok.injEq]
  constructor
  · rintro ⟨t, ht, rfl⟩
    exact ⟨t, ht, rfl⟩
  · rintro ⟨t, ht, rfl⟩
    exact ⟨t, ht, rfl⟩

theorem responderReply_eq_ok {party : Party} {ephemeral nonce : Bytes} {m : Json}
    {dec : TrustDecision} {now : Double} {st : ResponseSent} {frame : Bytes} :
    responderReply P party ephemeral nonce m pub dec now = .ok (st, frame) ↔
      responderSign P party ephemeral nonce m pub dec = .ok st ∧
      encodeFrame P (Protocol.makeHandshakeResponse st.response.deviceId st.response.publicKey
        st.response.ephemeralKey st.response.nonce st.response.senderName st.mySignature now) =
        .ok frame := by
  simp only [responderReply, Except.bind_eq_ok, pure, Except.pure, Except.ok.injEq, Prod.mk.injEq]
  constructor
  · rintro ⟨st, hs, frame, hf, rfl, rfl⟩
    exact ⟨hs, hf⟩
  · rintro ⟨hs, hf⟩
    exact ⟨st, hs, frame, hf, rfl, rfl⟩

theorem responderOnFinish_eq_ok {st : ResponseSent} {m : Json} {r : Result} :
    responderOnFinish P st m = .ok r ↔
      expectMessage "handshake_finish" m = .ok () ∧
      ∃ transcript secret hash,
        computeInitiatorTranscript st.transcript st.mySignature.val = some transcript ∧
        st.peerPubBytes.length = 32 ∧
        (∃ sig, Bytes.fromHex (m.text "signature").val = some sig ∧
          P.ed25519.verify st.peerPubBytes sig transcript) ∧
        sharedSecret P st.ephemeral st.init.ephemeralKey.val = .ok secret ∧
        computeFinalTranscriptHash P transcript (m.text "signature").val = some hash ∧
        r = ⟨st.init.deviceId, st.init.publicKey, st.init.senderName, secret, hash,
          st.trustDecision⟩ := by
  simp only [responderOnFinish, Except.bind_eq_ok, ofOption_eq_ok, publicKeyFromBytes_eq_some, pure,
    Except.pure, Except.ok.injEq]
  constructor
  · rintro ⟨_, he, t, ht, _, ⟨hl, rfl⟩, _, hs, secret, hx, hash, hh, rfl⟩
    exact ⟨he, t, secret, hash, ht, hl, verifySignature_eq_ok.mp hs, hx, hh, rfl⟩
  · rintro ⟨he, t, secret, hash, ht, hl, hs, hx, hh, rfl⟩
    exact ⟨(), he, t, ht, _, ⟨hl, rfl⟩, (), verifySignature_eq_ok.mpr hs, secret, hx, hash, hh, rfl⟩

-- The shared state

@[simp]
theorem liftExcept_run (x : Except Failure α) : (liftExcept x).run sh =
    match x with
    | .ok a    => .ok a sh
    | .error e => .error e sh := by
  cases x <;> rfl

-- What the trust step of a handshake does to the store when it succeeds
inductive TrustStep (peer : Fields) (now : Double) :
    Option TrustStore → TrustDecision → Option TrustStore → Prop
  | none : TrustStep peer now none .unknown none
  | firstSeen {s : TrustStore} {id pk name : DbText} {devices}
    (deviceId : id.val = peer.deviceId.val) (publicKey : pk.val = peer.publicKey.val)
    (senderName : name.val = peer.senderName.val) (absent : s.devices.find? id = .none)
    (insert : s.devices.insert? (TrustStore.pendingRow id pk name now) = some devices) :
    TrustStep peer now (some s) .pending (some { s with devices })
  | touch {s : TrustStore} {id : DbText} {r}
    (deviceId : id.val = peer.deviceId.val) (found : s.devices.find? id = some r)
    (publicKey : r.publicKey.val = peer.publicKey.val) (status : r.status ≠ .revoked) :
    TrustStep peer now (some s) (if r.status = .trusted then .trusted else .pending)
      (some (s.touched id now))

theorem TrustStep.effect {peer : Fields} {now : Double} {dec : TrustDecision} {s s' : TrustStore}
    (h : TrustStep peer now (some s) dec (some s')) :
    TrustStore.Effect P s (.checkAndUpdateTrust peer.deviceId.val peer.publicKey.val
      peer.senderName.val now) s' := by
  cases h
  case firstSeen hd hk hn hf hi => exact hd ▸ hk ▸ hn ▸ .checkFirstSeen hf hi
  case touch hd hk hs hf => exact hd ▸ hk ▸ .checkTouch hf rfl hs

theorem TrustStep.after {peer : Fields} {now : Double} {dec : TrustDecision} {s s' : TrustStore}
    (h : TrustStep peer now (some s) dec (some s')) :
    (Call.checkAndUpdateTrust peer.deviceId.val peer.publicKey.val peer.senderName.val now).after P s =
      s' := by
  cases h
  case firstSeen hd hk hn hf hi =>
    simp only [Call.after, Call.exec, EStateM.run_bind, ← hd, ← hk, ← hn,
      TrustStore.checkAndUpdateTrust_run_unknown hf hi, EStateM.run_pure]
  case touch hd hk hs hf =>
    simp only [Call.after, Call.exec, EStateM.run_bind, ← hd,
      TrustStore.checkAndUpdateTrust_run_known hf, hk, hs, ne_eq, not_true_eq_false, if_false,
      EStateM.run_pure]

theorem TrustStep.run {peer : Fields} {now : Double} {dec : TrustDecision}
    {before store : Option TrustStore} (h : TrustStep peer now before dec store) (cache : NonceCache) :
    (checkAndUpdateTrust peer.deviceId.val peer.publicKey.val peer.senderName.val now).run
      ⟨before, cache⟩ = .ok dec ⟨store, cache⟩ := by
  cases h
  case none => rfl
  case firstSeen id pk name devices hd hk hn hf hi =>
    simp only [checkAndUpdateTrust, EStateM.run_bind, EStateM.run_get, ← hd, ← hk, ← hn,
      TrustStore.checkAndUpdateTrust_run_unknown hf hi]
    rfl
  case touch s id r hd hf hk hs =>
    simp only [checkAndUpdateTrust, EStateM.run_bind, EStateM.run_get, ← hd,
      TrustStore.checkAndUpdateTrust_run_known hf, hk, hs, ne_eq, not_true_eq_false, if_false]
    rfl

theorem checkAndUpdateTrust_run_cases (peer : Fields) (now : Double) (sh : Shared) :
    (∃ e, (checkAndUpdateTrust peer.deviceId.val peer.publicKey.val peer.senderName.val now).run sh =
      .error e sh) ∨
    ∃ dec store, TrustStep peer now sh.store dec store := by
  obtain ⟨store, cache⟩ := sh
  cases store
  case none => exact .inr ⟨.unknown, none, .none⟩
  case some s =>
    rcases TrustStore.checkAndUpdateTrust_cases peer.deviceId.val peer.publicKey.val
      peer.senderName.val now s with ⟨e, h⟩ | ⟨id, pk, name, devices, hd, hk, hn, hf, hi, -⟩ |
      ⟨id, r, hd, hf, hk, hs, -⟩
    · refine .inl ⟨.ofTrust e, ?_⟩
      simp only [checkAndUpdateTrust, EStateM.run_bind, EStateM.run_get, h]
      rfl
    · exact .inr ⟨_, _, .firstSeen hd hk hn hf hi⟩
    · exact .inr ⟨_, _, .touch hd hf hk hs⟩

-- The conditions under which a message passes up to the trust step
structure Presents (P : Primitives) (name : String) (cache : NonceCache) (now : Double) (m : Json)
    (pub : Bytes) : Prop where
  expected : expectMessage name m = .ok ()
  fresh    : (cache.checkAndAdd (Fields.ofMessage m).nonce now).fst
  identity : verifyDeviceIdentity P (Fields.ofMessage m).deviceId.val
    (Fields.ofMessage m).publicKey.val = .ok pub

theorem checkNonce_run {role : String} {nonce : Text} {now : Double} :
    (checkNonce role nonce now).run sh =
      if (sh.cache.checkAndAdd nonce now).fst then
        .ok () { sh with cache := (sh.cache.checkAndAdd nonce now).snd }
      else .error (.protocol [.text "replayed ", .text role, .text " nonce detected"])
        { sh with cache := (sh.cache.checkAndAdd nonce now).snd } := by
  cases h : (sh.cache.checkAndAdd nonce now).fst <;>
    simp only [checkNonce, EStateM.run_bind, EStateM.run_get, EStateM.run_modify, h] <;> rfl

theorem checkPeer_run {name role : String} {m : Json} {now : Clocks} {dec : TrustDecision}
    {store : Option TrustStore} (h : Presents P name sh.cache now.cache m pub)
    (ht : TrustStep (.ofMessage m) now.trust sh.store dec store) :
    (checkPeer P name role m now).run sh =
      .ok (pub, dec) ⟨store, (sh.cache.checkAndAdd (Fields.ofMessage m).nonce now.cache).snd⟩ := by
  simp only [checkPeer, EStateM.run_bind, liftExcept_run, h.expected, checkNonce_run, h.fresh, if_true,
    h.identity, ht.run, EStateM.run_pure]

-- With a store, a message that passes up to the trust step is left to the store.
theorem checkPeer_run_store {name role : String} {m : Json} {now : Clocks} {s : TrustStore}
    {cache : NonceCache} (h : Presents P name cache now.cache m pub) :
    ∃ cache', (checkPeer P name role m now).run ⟨some s, cache⟩ =
      match (TrustStore.checkAndUpdateTrust (Fields.ofMessage m).deviceId.val
        (Fields.ofMessage m).publicKey.val (Fields.ofMessage m).senderName.val now.trust).run s with
      | .ok dec s'  => .ok (pub, dec) ⟨some s', cache'⟩
      | .error e s' => .error (.ofTrust e) ⟨some s', cache'⟩ := by
  refine ⟨(cache.checkAndAdd (Fields.ofMessage m).nonce now.cache).snd, ?_⟩
  simp only [checkPeer, EStateM.run_bind, liftExcept_run, h.expected, checkNonce_run, h.fresh, if_true,
    h.identity, EStateM.run_pure, checkAndUpdateTrust, EStateM.run_get]
  cases (TrustStore.checkAndUpdateTrust (Fields.ofMessage m).deviceId.val
    (Fields.ofMessage m).publicKey.val (Fields.ofMessage m).senderName.val now.trust).run s <;> rfl

theorem checkPeer_cases (P : Primitives) (name role : String) (m : Json) (now : Clocks) (sh : Shared) :
    (∃ e cache, (checkPeer P name role m now).run sh = .error e { sh with cache }) ∨
    ∃ pub dec store, Presents P name sh.cache now.cache m pub ∧
      TrustStep (.ofMessage m) now.trust sh.store dec store := by
  simp only [checkPeer, EStateM.run_bind, liftExcept_run, checkNonce_run]
  cases he : expectMessage name m
  case error e => exact .inl ⟨e, sh.cache, rfl⟩
  by_cases hn : (sh.cache.checkAndAdd (Fields.ofMessage m).nonce now.cache).fst
  case neg => exact .inl ⟨_, _, by simp only [hn]; rfl⟩
  cases hi : verifyDeviceIdentity P (Fields.ofMessage m).deviceId.val (Fields.ofMessage m).publicKey.val
  case error e => exact .inl ⟨e, _, by simp only [hn, if_true]; rfl⟩
  case ok pub =>
    rcases checkAndUpdateTrust_run_cases (.ofMessage m) now.trust
      { sh with cache := (sh.cache.checkAndAdd (Fields.ofMessage m).nonce now.cache).snd } with
      ⟨e, h⟩ | ⟨dec, store, h⟩
    · exact .inl ⟨e, _, by simp only [hn, if_true, h]; rfl⟩
    · exact .inr ⟨pub, dec, store, ⟨he, hn, hi⟩, h⟩

theorem checkPeer_eq_ok {name role : String} {m : Json} {now : Clocks} {dec : TrustDecision}
    (h : (checkPeer P name role m now).run sh = .ok (pub, dec) sh') :
    Presents P name sh.cache now.cache m pub ∧
      TrustStep (.ofMessage m) now.trust sh.store dec sh'.store := by
  rcases checkPeer_cases P name role m now sh with ⟨e, cache, he⟩ | ⟨pub', dec', store, hp, ht⟩
  · cases h.symm.trans he
  · cases h.symm.trans (checkPeer_run hp ht)
    exact ⟨hp, ht⟩

theorem run_bind_eq_ok {ε σ α β : Type} {x : EStateM ε σ α} {f : α → EStateM ε σ β}
    {s s' : σ} {b : β} : (x >>= f).run s = .ok b s' ↔
      ∃ a s'', x.run s = .ok a s'' ∧ (f a).run s'' = .ok b s' := by
  rw [EStateM.run_bind]
  cases x.run s <;> simp

theorem liftExcept_eq_ok {x : Except Failure α} {a : α} :
    (liftExcept x).run sh = .ok a sh' ↔ x = .ok a ∧ sh = sh' := by
  cases x <;> simp

theorem initiatorOnResponse_eq_ok {st : InitSent} {m : Json} {now : Clocks} {st' : FinishSent}
    {frame : Bytes} : (initiatorOnResponse P st m now).run sh = .ok (st', frame) sh' ↔
      ∃ pub dec, (checkPeer P "handshake_response" "responder" m now).run sh = .ok (pub, dec) sh' ∧
        initiatorReply P st m pub dec now.send = .ok (st', frame) := by
  simp only [initiatorOnResponse, run_bind_eq_ok, liftExcept_eq_ok]
  constructor
  · rintro ⟨⟨pub, dec⟩, _, ha, hr, rfl⟩
    exact ⟨pub, dec, ha, hr⟩
  · rintro ⟨pub, dec, ha, hr⟩
    exact ⟨(pub, dec), sh', ha, hr, rfl⟩

theorem responderOnInit_eq_ok {party : Party} {ephemeral nonce : Bytes} {m : Json} {now : Clocks}
    {st : ResponseSent} {frame : Bytes} :
    (responderOnInit P party ephemeral nonce m now).run sh = .ok (st, frame) sh' ↔
      ∃ pub dec, (checkPeer P "handshake_init" "initiator" m now).run sh = .ok (pub, dec) sh' ∧
        responderReply P party ephemeral nonce m pub dec now.send = .ok (st, frame) := by
  simp only [responderOnInit, run_bind_eq_ok, liftExcept_eq_ok]
  constructor
  · rintro ⟨⟨pub, dec⟩, _, ha, hr, rfl⟩
    exact ⟨pub, dec, ha, hr⟩
  · rintro ⟨pub, dec, ha, hr⟩
    exact ⟨(pub, dec), sh', ha, hr, rfl⟩

end Handshake
