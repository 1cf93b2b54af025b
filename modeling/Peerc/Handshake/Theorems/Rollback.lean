import Peerc.Handshake.Perform
import Peerc.Handshake.Theorems.Agreement

-- The trust step of a handshake with `peer` changes the store.
inductive TrustStore.Writes (s : TrustStore) (peer : Handshake.Fields) (now : Double) : Prop
  | insert {id : DbText} (deviceId : id.val = peer.deviceId.val)
    (absent : s.devices.find? id = none) (publicKey : peer.publicKey.val.Encodable)
    (senderName : peer.senderName.val.Encodable)
  | touch {id : DbText} {r : TrustedDevice} (deviceId : id.val = peer.deviceId.val)
    (found : s.devices.find? id = some r) (publicKey : r.publicKey.val = peer.publicKey.val)
    (status : r.status ≠ .revoked) (lastSeen : r.lastSeen ≠ now)

variable {peer : Handshake.Fields} {now : Double} {s : TrustStore}

theorem TrustStore.Writes.step (h : s.Writes peer now) :
    ∃ dec store, Handshake.TrustStep peer now (some s) dec store ∧ store ≠ some s := by
  cases h
  case insert id hd hf hk hn =>
    have ⟨devices, hi⟩ := Table.insert?_of_find?_eq_none
      (r := TrustStore.pendingRow id ⟨_, hk⟩ ⟨_, hn⟩ now) hf
    refine ⟨_, _, .firstSeen hd rfl rfl hf hi, fun he => ?_⟩
    have hs : devices.find? id = none := by
      rw [← hf, ← Option.some.inj he]
    rw [Table.find?_insert? hi] at hs
    simp [TrustStore.pendingRow] at hs
  case touch id r hd hf hk hs hl =>
    refine ⟨_, _, .touch hd hf hk hs, fun he => hl ?_⟩
    have hs : (s.touched id now).devices.find? id = some r := by
      rw [← hf, Option.some.inj he]
    simp only [TrustStore.touched, Table.find?_update, if_pos, hf, Option.map_some,
      Option.some.injEq] at hs
    rw [← hs]

namespace Handshake

variable {P : Primitives} {sh sh' : Shared} {α : Type} {env : Env} {party : Party}
variable {m : Json} {pub : Bytes} {dec : TrustDecision}
variable {store : Option TrustStore}

theorem TrustStep.writes (h : TrustStep peer now (some s) dec store) (hne : store ≠ some s) :
    s.Writes peer now := by
  cases h
  case firstSeen hd hk hn hf hi => exact .insert hd hf (hk ▸ Subtype.property _) (hn ▸ Subtype.property _)
  case touch id r hd hk hs hf =>
    refine .touch hd hf hk hs fun hl => hne ?_
    have hu : s.devices.update id ({ · with lastSeen := now }) (fun _ => rfl) = s.devices := by
      refine Table.update_eq_self fun r' hr => ?_
      cases hf.symm.trans hr
      rw [← hl]
    rw [TrustStore.touched, hu]

-- The user does not touch the store while the handshake is suspended.
def Env.quiet (env : Env) : Env :=
  { env with before := [], after := [] }

theorem storeBefore_quiet : Script.storeBefore P env.quiet sh = sh.store := by
  cases h : sh.store <;> simp [Script.storeBefore, Env.quiet, h]

theorem Script.perform_quiet_run {script : Script α}
    (h : script.Admits P env.quiet sh m pub dec store) :
    ∃ cache, (script.perform P env.quiet).run sh =
      match script.reply m pub dec >>= script.finish with
      | .error e => .error e ⟨store, cache⟩
      | .ok r    => .ok r ⟨store, cache⟩ := by
  obtain ⟨cache, hr⟩ := perform_run h
  have hn : store.map (·.run P env.quiet.after) = store := by
    cases store <;> rfl
  refine ⟨cache, hr.trans ?_⟩
  cases script.reply m pub dec
  case error e => rfl
  case ok sent => cases hf : script.finish sent <;> simp only [hn, hf, bind, Except.bind]

theorem Script.perform_unchanged_iff {script : Script α} :
    (∀ e sh', (script.perform P env.quiet).run sh = .error e sh' → sh'.store = sh.store) ↔
      ∀ m pub dec store, script.Admits P env.quiet sh m pub dec store → store ≠ sh.store →
        ∃ r, script.reply m pub dec >>= script.finish = .ok r := by
  constructor
  case mp =>
    intro h m pub dec store ha hne
    obtain ⟨cache, hr⟩ := perform_quiet_run ha
    cases hx : script.reply m pub dec >>= script.finish
    case error e => exact absurd (h e _ (by rw [hr, hx])) hne
    case ok r => exact ⟨r, rfl⟩
  case mpr =>
    intro h e sh' he
    rcases perform_cases P script env.quiet sh with ⟨e', cache, hr⟩ | ⟨m, pub, dec, store, ha⟩
    · cases he.symm.trans hr
      exact storeBefore_quiet
    · obtain ⟨cache, hr⟩ := perform_quiet_run ha
      cases hx : script.reply m pub dec >>= script.finish
      case error e' =>
        cases he.symm.trans (hr.trans (by rw [hx]))
        by_contra hne
        obtain ⟨r, hok⟩ := h m pub dec store ha hne
        cases hx.symm.trans hok
      case ok r => cases he.symm.trans (hr.trans (by rw [hx]))

-- What the peer has yet to send and to prove after the trust step

def ValidEphemeralKey (P : Primitives) (ephemeral : Bytes) (m : Json) : Prop :=
  ∃ raw, Bytes.fromHex (m.text "ephemeral_key").val = some raw ∧ raw.length = 32 ∧
    (P.x25519.exchange ephemeral raw).isSome

-- The response is signed with its key, and the finish can be sent.
structure ResponseHolds (P : Primitives) (party : Party) (env : Env) (m : Json) (pub : Bytes) :
    Prop where
  accepts : ∃ respTranscript transcript frame,
    Accepts P ⟨party, env.ephemeral, initFields P party env.ephemeral env.nonce⟩ m pub respTranscript
      transcript ∧
    encodeFrame P (Protocol.makeHandshakeFinish (party.identity.sign P transcript).hexText
      env.now.send) = .ok frame
  drained   : env.drain₂
  ephemeral : ValidEphemeralKey P env.ephemeral m

theorem drain_eq_ok {ok : Bool} {u : Unit} : drain ok = .ok u ↔ ok := by
  cases ok <;> simp [drain]

theorem sharedSecret_isOk {ephemeral : Bytes} :
    (∃ secret, sharedSecret P ephemeral (m.text "ephemeral_key").val = .ok secret) ↔
      ValidEphemeralKey P ephemeral m := by
  simp only [sharedSecret_eq_ok, ValidEphemeralKey, Option.isSome_iff_exists]
  constructor
  · rintro ⟨secret, raw, hr, hl, hx⟩
    exact ⟨raw, hr, hl, secret, hx⟩
  · rintro ⟨raw, hr, hl, secret, hx⟩
    exact ⟨secret, raw, hr, hl, hx⟩

theorem computeFinalTranscriptHash_isSome {t : Bytes} {s : Str} (h : s.IsAscii) :
    ∃ hash, computeFinalTranscriptHash P t s = some hash := by
  simp [computeFinalTranscriptHash, Str.encodeAscii, h]

theorem initiatorScript_isOk {st : InitSent}
    (hst : st = ⟨party, env.ephemeral, initFields P party env.ephemeral env.nonce⟩) :
    (∃ r, (initiatorScript P st env).reply m pub dec >>= (initiatorScript P st env).finish = .ok r) ↔
      ResponseHolds P party env m pub := by
  subst hst
  simp only [initiatorScript, Except.bind_eq_ok, initiatorReply_eq_ok, initiatorSign_eq_ok,
    initiatorFinish_eq_ok, Prod.exists]
  constructor
  · rintro ⟨r, st', frame, ⟨⟨t, t', ha, rfl⟩, hf⟩, _, hd, secret, hash, hs, -, -⟩
    exact ⟨⟨t, t', frame, ha, hf⟩, drain_eq_ok.mp hd, sharedSecret_isOk.mp ⟨secret, hs⟩⟩
  · rintro ⟨⟨t, t', frame, ha, hf⟩, hd, he⟩
    obtain ⟨secret, hs⟩ := sharedSecret_isOk.mpr he
    obtain ⟨hash, hh⟩ := computeFinalTranscriptHash_isSome (P := P) (t := t')
      (Bytes.hex_isAscii (party.identity.sign P t'))
    exact ⟨_, _, frame, ⟨⟨t, t', ha, rfl⟩, hf⟩, (), drain_eq_ok.mpr hd, secret, hash, hs, hh, rfl⟩

-- The response can be sent, and the finish is signed with the key of the init.
structure FinishHolds (P : Primitives) (party : Party) (env : Env) (m : Json) (pub : Bytes) : Prop where
  length    : pub.length = 32
  finish    : ∃ respTranscript transcript frame finishMsg sig,
    let mySignature := (party.identity.sign P respTranscript).hexText
    let response := responseFields P party env.ephemeral env.nonce
    computeResponderTranscript P (.ofMessage m) response = some respTranscript ∧
    encodeFrame P (Protocol.makeHandshakeResponse response.deviceId response.publicKey
      response.ephemeralKey response.nonce response.senderName mySignature env.now.send) = .ok frame ∧
    awaitFrame P "handshake_finish" env.second = .ok finishMsg ∧
    expectMessage "handshake_finish" finishMsg = .ok () ∧
    computeInitiatorTranscript respTranscript mySignature.val = some transcript ∧
    Bytes.fromHex (finishMsg.text "signature").val = some sig ∧ P.ed25519.verify pub sig transcript
  drained   : env.drain₂
  ephemeral : ValidEphemeralKey P env.ephemeral m

theorem responderScript_isOk :
    (∃ r, (responderScript P party env).reply m pub dec >>= (responderScript P party env).finish =
      .ok r) ↔ FinishHolds P party env m pub := by
  simp only [responderScript, Except.bind_eq_ok, responderReply_eq_ok, responderSign_eq_ok,
    responderOnFinish_eq_ok, Prod.exists]
  constructor
  · rintro ⟨r, st, frame, ⟨⟨t, ht, rfl⟩, hf⟩, _, hd, fm, hm, he, t', secret, hash, ht', hl,
      ⟨sig, hx, hv⟩, hs, -, -⟩
    exact ⟨hl, ⟨t, t', frame, fm, sig, ht, hf, hm, he, ht', hx, hv⟩, drain_eq_ok.mp hd,
      sharedSecret_isOk.mp ⟨secret, hs⟩⟩
  · rintro ⟨hl, ⟨t, t', frame, fm, sig, ht, hf, hm, he, ht', hx, hv⟩, hd, hk⟩
    obtain ⟨secret, hs⟩ := sharedSecret_isOk.mpr hk
    obtain ⟨hash, hh⟩ := computeFinalTranscriptHash_isSome (P := P) (t := t')
      (Bytes.fromHex_isAscii hx)
    exact ⟨_, _, frame, ⟨⟨t, ht, rfl⟩, hf⟩, (), drain_eq_ok.mpr hd, fm, hm, he, t', secret, hash, ht', hl,
      ⟨sig, hx, hv⟩, hs, hh, rfl⟩

-- A message that gets to a trust step that writes
structure Recorded (P : Primitives) (name : String) (env : Env) (sh : Shared) (m : Json) (pub : Bytes) :
    Prop where
  read     : awaitFrame P name env.first = .ok m
  presents : Presents P name sh.cache env.now.cache m pub
  writes   : ∃ s, sh.store = some s ∧ s.Writes (.ofMessage m) env.now.trust

theorem Script.unchanged_iff (script : Script α) {Holds : Json → Bytes → Prop}
    (hr : ∀ {m}, script.read = .ok m ↔ awaitFrame P script.name env.first = .ok m)
    (hh : ∀ {m pub dec}, (∃ r, script.reply m pub dec >>= script.finish = .ok r) ↔ Holds m pub) :
    (∀ e sh', (script.perform P env.quiet).run sh = .error e sh' → sh'.store = sh.store) ↔
      ∀ m pub, Recorded P script.name env sh m pub → Holds m pub := by
  rw [perform_unchanged_iff]
  constructor
  · rintro h m pub ⟨hread, hp, s, hs, hw⟩
    obtain ⟨dec, store, ht, hne⟩ := hw.step
    refine hh.mp (h m pub dec store ⟨hr.mpr hread, hp, ?_⟩ (hs ▸ hne))
    rw [storeBefore_quiet, hs]
    exact ht
  · intro h m pub dec store ha hne
    refine hh.mpr (h m pub ⟨hr.mp ha.read, ha.presents, ?_⟩)
    have ht := ha.trust
    rw [storeBefore_quiet] at ht
    cases hs : sh.store
    case none =>
      rw [hs] at ht
      cases ht
      exact absurd hs.symm hne
    case some s =>
      rw [hs] at ht hne
      exact ⟨s, rfl, ht.writes hne⟩

theorem performHandshakeInitiator_unchanged_iff :
    (∀ e sh', (performHandshakeInitiator P party env.quiet).run sh = .error e sh' →
      sh'.store = sh.store) ↔
      ∀ m pub, (initiatorStart P party env.ephemeral env.nonce env.start).toBool → env.drain₁ →
        Recorded P "handshake_response" env sh m pub → ResponseHolds P party env m pub := by
  have hscript {st} : initiatorScript P st env.quiet = initiatorScript P st env := rfl
  have hstart : initiatorStart P party env.quiet.ephemeral env.quiet.nonce env.quiet.start =
      initiatorStart P party env.ephemeral env.nonce env.start := rfl
  simp only [performHandshakeInitiator_eq, EStateM.run_bind, liftExcept_run, hscript, hstart]
  cases hs : initiatorStart P party env.ephemeral env.nonce env.start
  case error e =>
    refine ⟨fun _ _ _ hc => (by cases hc), ?_⟩
    rintro _ _ _ ⟨⟩
    rfl
  case ok sent =>
    obtain ⟨st, frame⟩ := sent
    cases hd : env.drain₁
    case false =>
      have hr : (initiatorScript P st env).read = .error .connection := by
        simp [initiatorScript, hd, drain, bind, Except.bind]
      refine ⟨fun _ _ _ _ hc => (by cases hc), fun _ => Script.perform_unchanged_iff.mpr ?_⟩
      exact fun _ _ _ _ ha => by cases hr.symm.trans ha.read
    case true =>
      have hr {m} : (initiatorScript P st env).read = .ok m ↔
          awaitFrame P "handshake_response" env.first = .ok m := by
        simp [initiatorScript, hd, drain, bind, Except.bind]
      refine (Script.unchanged_iff (initiatorScript P st env) hr
        (initiatorScript_isOk (initiatorStart_eq_ok hs))).trans ?_
      exact ⟨fun h m pub _ _ => h m pub, fun h m pub => h m pub rfl rfl⟩

theorem performHandshakeResponder_unchanged_iff :
    (∀ e sh', (performHandshakeResponder P party env.quiet).run sh = .error e sh' →
      sh'.store = sh.store) ↔
      ∀ m pub, Recorded P "handshake_init" env sh m pub → FinishHolds P party env m pub := by
  rw [performHandshakeResponder_eq]
  exact Script.unchanged_iff (responderScript P party env) Iff.rfl responderScript_isOk

theorem failed_handshake_unchanged (P : Primitives) (party : Party) (env : Env) (sh : Shared) :
    ((∀ e sh', (performHandshakeInitiator P party env.quiet).run sh = .error e sh' →
      sh'.store = sh.store) ↔
      ∀ m pub, (initiatorStart P party env.ephemeral env.nonce env.start).toBool → env.drain₁ →
        Recorded P "handshake_response" env sh m pub → ResponseHolds P party env m pub) ∧
    ((∀ e sh', (performHandshakeResponder P party env.quiet).run sh = .error e sh' →
      sh'.store = sh.store) ↔
      ∀ m pub, Recorded P "handshake_init" env sh m pub → FinishHolds P party env m pub) :=
  ⟨performHandshakeInitiator_unchanged_iff, performHandshakeResponder_unchanged_iff⟩

-- What a responder sees of a device that completes a handshake, with the message number `n` as its finish
def Agreement.peerEnv (key : Bytes) (n : UInt8) : Env where
  ephemeral := [4]
  nonce     := [6]
  start     := .zero
  now       := clocks
  before    := []
  drain₁    := true
  first     := .payload ((Protocol.encodeJson prims (initMsg key)).getD [])
  after     := []
  drain₂    := true
  second    := .payload ((Protocol.encodeJson prims (finishMsg key n)).getD [])

-- Somebody sends the init of another device, whose private key they do not hold, and then nothing: the
-- handshake times out, and the store has a row for that device.

open Agreement

def silentEnv : Env :=
  { peerEnv aliceKey 1 with second := .timeout }

-- The devices on file when the handshake times out
def idsAtTimeout : EStateM.Result Failure Shared Result → List Str
  | .error (.timeout _) ⟨some s, _⟩ => s.devices.rows.map (·.deviceId.val)
  | _                               => []

theorem failed_handshake_unchanged_silent :
    ∃ msg sh, (performHandshakeResponder prims (device bobKey) silentEnv.quiet).run ⟨some .empty, shared.cache⟩ =
      .error (.timeout msg) sh ∧ sh.store ≠ some .empty := by
  have h : idsAtTimeout ((performHandshakeResponder prims (device bobKey) silentEnv.quiet).run
      ⟨some .empty, shared.cache⟩) = [(init aliceKey).deviceId.val] := by
    decide +kernel
  generalize (performHandshakeResponder prims (device bobKey) silentEnv.quiet).run _ = x at h ⊢
  match x, h with
  | .error (.timeout msg) ⟨some s, cache⟩, h =>
    refine ⟨msg, _, rfl, fun he => ?_⟩
    cases he
    cases h

end Handshake
