import Peerc.Handshake.Matched
import Peerc.Handshake.Theorems.Pinning

def TrustStatus.decision : TrustStatus → TrustDecision
  | pending => .pending
  | trusted => .trusted
  | revoked => .revoked

namespace Handshake

open Protocol TrustStore

variable {P : Primitives} {K : Hkdf} {a b side peer : Side}

-- NONCE_BYTES
def nonceBytes : Nat := 32

namespace Side

-- What a side brings along: a name that is Unicode text, a nonce of the right size and clocks that work
structure Ready (side : Side) : Prop where
  name  : side.party.name.val.Encodable
  nonce : side.nonce.length = nonceBytes
  start : ¬side.start.isNaN
  send  : ¬side.now.send.isNaN

def row? (P : Primitives) (side peer : Side) : Option TrustedDevice :=
  side.store.devices.find? (deviceIdText P (peer.publicKey P))

-- The nonce of the peer is new, and if the peer is known, it is known by the hex of its key and not REVOKED.
structure Welcomes (P : Primitives) (side peer : Side) : Prop where
  fresh : ∀ e ∈ side.cache.seen, e.fst ≠ peer.nonce.hexText
  known : ∀ r, side.row? P peer = some r →
    r.publicKey.val = (peer.publicKey P).hex ∧ r.status ≠ .revoked

-- PENDING if the peer is unknown and the stored status otherwise
def decision (P : Primitives) (side peer : Side) : TrustDecision :=
  ((side.row? P peer).map (·.status.decision)).getD .pending

end Side

theorem NonceCache.checkAndAdd_fresh {c : NonceCache} {nonce : Text} {now : Double}
    (h : ∀ e ∈ c.seen, e.fst ≠ nonce) : (c.checkAndAdd nonce now).fst := by
  have hn : ¬(c.seen.filter (!c.expired now ·.snd)).any (·.fst = nonce) := by
    simp only [List.any_eq_true, decide_eq_true_eq, not_exists, not_and]
    exact fun e he => h e (List.mem_of_mem_filter he)
  simp only [checkAndAdd, if_neg hn]

-- The fields of a message that `peer` has sent
structure SentBy (P : Primitives) (peer : Side) (f : Fields) : Prop where
  deviceId   : f.deviceId.val = computeDeviceId P (peer.publicKey P)
  publicKey  : f.publicKey.val = (peer.publicKey P).hex
  nonce      : f.nonce = peer.nonce.hexText
  senderName : f.senderName = peer.party.name

theorem Side.Welcomes.presents {name : String} {m : Json} (h : side.Welcomes P peer)
    (hs : SentBy P peer (.ofMessage m)) (he : expectMessage name m = .ok ()) :
    Presents P name side.cache side.now.cache m (peer.publicKey P) where
  expected := he
  fresh    := hs.nonce ▸ NonceCache.checkAndAdd_fresh h.fresh
  identity := by
    rw [hs.publicKey]
    exact verifyDeviceIdentity_eq_ok.mpr ⟨Bytes.fromHex_hex _, hs.deviceId.symm⟩

theorem Side.Welcomes.trustStep {f : Fields} (h : side.Welcomes P peer) (hr : peer.Ready)
    (hs : SentBy P peer f) (now : Double) :
    ∃ s, TrustStep f now (some side.store) (side.decision P peer) (some s) := by
  have hid : (deviceIdText P (peer.publicKey P)).val = f.deviceId.val := hs.deviceId.symm
  cases hf : side.row? P peer
  case none =>
    have hk : f.publicKey.val.Encodable := hs.publicKey ▸ (Bytes.hex_isAscii _).encodable
    have hn : f.senderName.val.Encodable := hs.senderName ▸ hr.name
    obtain ⟨devices, hi⟩ := Table.insert?_of_find?_eq_none
      (r := pendingRow (deviceIdText P (peer.publicKey P)) ⟨_, hk⟩ ⟨_, hn⟩ now) hf
    have hd : side.decision P peer = .pending := by simp [Side.decision, hf]
    rw [hd]
    exact ⟨_, .firstSeen hid rfl rfl hf hi⟩
  case some r =>
    obtain ⟨hk, hrev⟩ := h.known r hf
    have hd : side.decision P peer = if r.status = .trusted then .trusted else .pending := by
      simp only [Side.decision, hf, Option.map_some, Option.getD_some]
      cases hst : r.status
      case pending => rfl
      case trusted => rfl
      case revoked => exact absurd hst hrev
    rw [hd]
    exact ⟨_, .touch hid hf (hk.trans hs.publicKey.symm) hrev⟩

-- The frames that the initiator `a` and the responder `b` write, each in answer to the one before
structure Exchanged (P : Primitives) (a b : Side) (f₁ f₂ f₃ : Bytes) : Prop where
  init     : ∃ st, initiatorStart P a.party a.ephemeral a.nonce a.start = .ok (st, f₁)
  response : ∃ m st sh, awaitFrame P "handshake_init" (.ofBytes f₁) = .ok m ∧
    (responderOnInit P b.party b.ephemeral b.nonce m b.now).run b.shared = .ok (st, f₂) sh
  finish   : ∃ st m st' sh, initiatorStart P a.party a.ephemeral a.nonce a.start = .ok (st, f₁) ∧
    awaitFrame P "handshake_response" (.ofBytes f₂) = .ok m ∧
    (initiatorOnResponse P st m a.now).run a.shared = .ok (st', f₃) sh

-- The signatures of two sides that hear each other

def signatureOf (P : Primitives) (a b : Side) : Text :=
  responseSignature P b.party (a.init P) (b.response P)

def answerOf (P : Primitives) (a b : Side) : Text :=
  finishSignature P a.party (a.init P) (b.response P) (signatureOf P a b)

-- The circumstances of a conversation, with the frames that carry its messages
structure Conversation (P : Primitives) (a b : Side) (f₁ f₂ f₃ : Bytes) : Prop where
  lawful    : P.Lawful
  initiator : a.Ready
  responder : b.Ready
  welcomes  : a.Welcomes P b
  welcomed  : b.Welcomes P a
  init      : encodeFrame P (a.initMessage P) = .ok f₁
  response  : encodeFrame P (b.responseMessage P (signatureOf P a b)) = .ok f₂
  finish    : encodeFrame P (makeHandshakeFinish (answerOf P a b) a.now.send) = .ok f₃

namespace Conversation

variable {f₁ f₂ f₃ : Bytes}

theorem filled (hP : P.Lawful) (h : side.Ready) : (side.init P).Filled := by
  refine init_filled hP ?_
  rintro hn
  have := h.nonce
  rw [hn] at this
  cases this

theorem sentBy_init : SentBy P side (.ofMessage (side.initMessage P)) :=
  ⟨rfl, rfl, rfl, rfl⟩

theorem sentBy_response (signature : Text) :
    SentBy P side (.ofMessage (side.responseMessage P signature)) :=
  ⟨rfl, rfl, rfl, rfl⟩

theorem signature_ne_nil (hP : P.Lawful) {identity : DeviceKeypair} {t : Bytes} :
    (identity.sign P t).hexText.val ≠ [] :=
  Bytes.hexText_ne_nil_of_length (hP.sign_length _ _)

theorem readInit (h : Conversation P a b f₁ f₂ f₃) :
    awaitFrame P "handshake_init" (.ofBytes f₁) = .ok (a.initMessage P) :=
  awaitFrame_ofBytes (initMessage_wellFormed h.initiator.start) h.init _

theorem readResponse (h : Conversation P a b f₁ f₂ f₃) :
    awaitFrame P "handshake_response" (.ofBytes f₂) = .ok (b.responseMessage P (signatureOf P a b)) :=
  awaitFrame_ofBytes (responseMessage_wellFormed h.responder.send) h.response _

theorem readFinish (h : Conversation P a b f₁ f₂ f₃) :
    awaitFrame P "handshake_finish" (.ofBytes f₃) =
      .ok (makeHandshakeFinish (answerOf P a b) a.now.send) :=
  awaitFrame_ofBytes (makeHandshakeFinish_wellFormed h.initiator.send) h.finish _

theorem presentsInit (h : Conversation P a b f₁ f₂ f₃) :
    Presents P "handshake_init" b.cache b.now.cache (a.initMessage P) (a.publicKey P) :=
  h.welcomed.presents sentBy_init (expectMessage_init (filled h.lawful h.initiator))

theorem presentsResponse (h : Conversation P a b f₁ f₂ f₃) :
    Presents P "handshake_response" a.cache a.now.cache (b.responseMessage P (signatureOf P a b))
      (b.publicKey P) :=
  h.welcomes.presents (sentBy_response _)
    (expectMessage_response (filled h.lawful h.responder) (signature_ne_nil h.lawful))

theorem validEphemeralKey (hP : P.Lawful) {m : Json} {ephemeral ephemeral' : Bytes}
    (hm : (m.text "ephemeral_key") = (P.x25519.publicKey ephemeral').hexText) :
    ValidEphemeralKey P ephemeral m := by
  obtain ⟨secret, -, hx, -⟩ := hP.exchange ephemeral ephemeral'
  refine ⟨P.x25519.publicKey ephemeral', ?_, P.x25519.publicKey_length _, hx ▸ rfl⟩
  rw [hm]
  exact Bytes.fromHex_hex _

theorem accepts :
    Accepts P ⟨a.party, a.ephemeral, a.init P⟩ (b.responseMessage P (signatureOf P a b)) (b.publicKey P)
      (responderTranscript P (a.init P) (b.response P))
      (initiatorTranscript P (a.init P) (b.response P) (signatureOf P a b)) where
  length    := P.ed25519.publicKey_length _
  responder := computeResponderTranscript_eq_responderTranscript _ _
  signature := ⟨_, Bytes.fromHex_hex _, P.ed25519.verify_sign _ _⟩
  initiator := computeInitiatorTranscript_eq_initiatorTranscript _ _ (Bytes.hex_isAscii _)

theorem started (h : Conversation P a b f₁ f₂ f₃) :
    initiatorStart P a.party a.ephemeral a.nonce a.start = .ok (⟨a.party, a.ephemeral, a.init P⟩, f₁) := by
  have hf : encodeFrame P (makeHandshakeInit (a.init P).deviceId (a.init P).publicKey
    (a.init P).ephemeralKey (a.init P).nonce (a.init P).senderName a.start) = .ok f₁ := h.init
  simp only [Side.init] at hf
  simp only [initiatorStart, hf, Side.init]
  rfl

theorem provesToInitiator (h : Conversation P a b f₁ f₂ f₃) (second : ReadOutcome) :
    ProvesToInitiator P a.party (a.env (.ofBytes f₂) second) a.cache
      (b.responseMessage P (signatureOf P a b)) (b.publicKey P) where
  start    := congrArg Except.toBool h.started
  drained  := rfl
  read     := h.readResponse
  presents := h.presentsResponse
  holds    := ⟨⟨_, _, _, accepts, h.finish⟩, rfl, validEphemeralKey h.lawful rfl⟩

-- Whatever way the answer is spelled
theorem provesToResponder (h : Conversation P a b f₁ f₂ f₃) {second : ReadOutcome} {m : Json}
    (hr : awaitFrame P "handshake_finish" second = .ok m)
    (he : expectMessage "handshake_finish" m = .ok ())
    (hs : Bytes.fromHex (m.text "signature").val = Bytes.fromHex (answerOf P a b).val) :
    ProvesToResponder P b.party (b.env (.ofBytes f₁) second) b.cache (a.initMessage P)
      (a.publicKey P) where
  read     := h.readInit
  presents := h.presentsInit
  holds    := by
    refine ⟨P.ed25519.publicKey_length _, ?_, rfl, validEphemeralKey h.lawful rfl⟩
    exact ⟨_, _, _, m, _, computeResponderTranscript_eq_responderTranscript _ _, h.response, hr, he,
      computeInitiatorTranscript_eq_initiatorTranscript _ _ (Bytes.hex_isAscii _),
      hs.trans (Bytes.fromHex_hex _), P.ed25519.verify_sign _ _⟩

theorem exchanged (h : Conversation P a b f₁ f₂ f₃) : Exchanged P a b f₁ f₂ f₃ := by
  obtain ⟨sA, hsA⟩ := h.welcomes.trustStep h.responder (sentBy_response (signatureOf P a b)) a.now.trust
  obtain ⟨sB, hsB⟩ := h.welcomed.trustStep h.initiator sentBy_init b.now.trust
  have hrB : ∃ st sh, (responderOnInit P b.party b.ephemeral b.nonce (a.initMessage P) b.now).run b.shared =
      .ok (st, f₂) sh :=
    ⟨_, _, responderOnInit_eq_ok.mpr ⟨_, _, checkPeer_run h.presentsInit hsB, responderReply_eq_ok.mpr
      ⟨responderSign_eq_ok.mpr ⟨_, computeResponderTranscript_eq_responderTranscript _ _, rfl⟩,
        h.response⟩⟩⟩
  have hrA : ∃ st sh, (initiatorOnResponse P ⟨a.party, a.ephemeral, a.init P⟩
      (b.responseMessage P (signatureOf P a b)) a.now).run a.shared = .ok (st, f₃) sh :=
    ⟨_, _, initiatorOnResponse_eq_ok.mpr ⟨_, _, checkPeer_run h.presentsResponse hsA,
      initiatorReply_eq_ok.mpr ⟨initiatorSign_eq_ok.mpr ⟨_, _, accepts, rfl⟩, h.finish⟩⟩⟩
  obtain ⟨stB, shB, hrB⟩ := hrB
  obtain ⟨stA, shA, hrA⟩ := hrA
  exact ⟨⟨_, h.started⟩, ⟨_, stB, shB, h.readInit, hrB⟩, ⟨_, _, stA, shA, h.started, h.readResponse, hrA⟩⟩

-- Both sides return when `b` reads the answer in any spelling.
theorem returns (h : Conversation P a b f₁ f₂ f₃) {second : ReadOutcome} {m : Json}
    (hr : awaitFrame P "handshake_finish" second = .ok m)
    (he : expectMessage "handshake_finish" m = .ok ())
    (hs : Bytes.fromHex (m.text "signature").val = Bytes.fromHex (answerOf P a b).val) :
    ∃ rA rB shA shB,
      (performHandshakeInitiator P a.party (a.env (.ofBytes f₂) .timeout)).run a.shared = .ok rA shA ∧
      (performHandshakeResponder P b.party (b.env (.ofBytes f₁) second)).run b.shared = .ok rB shB ∧
      rA.Describes (b.response P) (a.decision P b) ∧ rB.Describes (a.init P) (b.decision P a) := by
  obtain ⟨sA, hsA⟩ := h.welcomes.trustStep h.responder (sentBy_response (signatureOf P a b)) a.now.trust
  obtain ⟨sB, hsB⟩ := h.welcomed.trustStep h.initiator sentBy_init b.now.trust
  obtain ⟨rA, cacheA, hrA, hdA⟩ := (h.provesToInitiator .timeout).completes hsA
  obtain ⟨rB, cacheB, hrB, hdB⟩ := (h.provesToResponder hr he hs).completes hsB
  exact ⟨rA, rB, _, _, hrA, hrB, hdA, hdB⟩

theorem matched (h : Conversation P a b f₁ f₂ f₃) {second : ReadOutcome} {m : Json}
    (hr : awaitFrame P "handshake_finish" second = .ok m) :
    Matched P a.party b.party (a.env (.ofBytes f₂) .timeout) (b.env (.ofBytes f₁) second)
      (a.initMessage P) (b.responseMessage P (signatureOf P a b)) m :=
  ⟨h.readInit, h.readResponse, hr, rfl, rfl⟩

end Conversation

-- The result is about the peer, by its device id, hex key and name.
structure Result.Names (P : Primitives) (r : Result) (peer : Side) (dec : TrustDecision) : Prop where
  deviceId      : r.peerDeviceId.val = computeDeviceId P (peer.publicKey P)
  publicKey     : r.peerPublicKey.val = (peer.publicKey P).hex
  name          : r.peerName = peer.party.name
  trustDecision : r.trustDecision = dec

-- Both sides return, know each other and hold mirrored keys.
structure Completed (P : Primitives) (K : Hkdf) (a b : Side) (f₁ f₂ f₃ : Bytes) (rA rB : Result) :
    Prop where
  initiator : ∃ sh, (performHandshakeInitiator P a.party (a.env (.ofBytes f₂) .timeout)).run a.shared =
    .ok rA sh
  responder : ∃ sh, (performHandshakeResponder P b.party (b.env (.ofBytes f₁) (.ofBytes f₃))).run b.shared =
    .ok rB sh
  namesB    : rA.Names P b (a.decision P b)
  namesA    : rB.Names P a (b.decision P a)
  keys      : ∃ kA kB, rA.deriveSessionKeys K true = .ok kA ∧ rB.deriveSessionKeys K false = .ok kB ∧
    kA.Mirrors kB

theorem Conversation.completed {f₁ f₂ f₃ : Bytes} (h : Conversation P a b f₁ f₂ f₃) (K : Hkdf) :
    ∃ rA rB, Completed P K a b f₁ f₂ f₃ rA rB := by
  obtain ⟨rA, rB, shA, shB, hrA, hrB, hdA, hdB⟩ := h.returns h.readFinish
    (expectMessage_finish (signature_ne_nil h.lawful)) rfl
  have hm := h.matched h.readFinish
  obtain ⟨m₂, t, t', hA⟩ := performHandshakeInitiator_eq_ok hrA
  obtain ⟨m₁, m₃, u, u', hB⟩ := performHandshakeResponder_eq_ok hrB
  cases hA.read.symm.trans hm.readResponse
  cases hB.read.symm.trans hm.readInit
  cases hB.finish.symm.trans hm.readFinish
  have hh : rA.transcriptHash = rB.transcriptHash :=
    (hm.initiator_hash hA).right.trans (hm.responder_hash hB).right.symm
  refine ⟨rA, rB, ⟨shA, hrA⟩, ⟨shB, hrB⟩, ?_, ?_, (hm.keysAgree h.lawful hA hB hh).keys⟩
  · exact ⟨congrArg _ hdA.deviceId, congrArg _ hdA.publicKey, hA.name, hdA.trustDecision⟩
  · exact ⟨congrArg _ hdB.deviceId, congrArg _ hdB.publicKey, hB.name, hdB.trustDecision⟩

theorem exists_conversation (hP : P.Lawful) (ha : a.Ready) (hb : b.Ready) (hab : a.Welcomes P b)
    (hba : b.Welcomes P a) (hi : Fits P (a.initMessage P))
    (hr : ∀ signature, signature.length = 64 → Fits P (b.responseMessage P (Bytes.hexText signature))) :
    ∃ f₁ f₂ f₃, Conversation P a b f₁ f₂ f₃ := by
  have hl : (answerOf P a b).val.length ≤ 1000 := by
    rw [answerOf, finishSignature, Bytes.hexText, Bytes.hex_length, DeviceKeypair.sign, hP.sign_length]
    decide
  obtain ⟨f₁, h₁⟩ := hi.encodeFrame
  obtain ⟨f₂, h₂⟩ := (hr _ (hP.sign_length _ _)).encodeFrame
  obtain ⟨f₃, h₃⟩ := (fits_finish hP hl a.now.send).encodeFrame
  exact ⟨f₁, f₂, f₃, hP, ha, hb, hab, hba, h₁, h₂, h₃⟩

theorem honest_handshake_completes (P : Primitives) (hP : P.Lawful) (K : Hkdf) (a b : Side)
    (ha : a.Ready) (hb : b.Ready) (hab : a.Welcomes P b) (hba : b.Welcomes P a)
    (hi : Fits P (a.initMessage P))
    (hr : ∀ signature, signature.length = 64 → Fits P (b.responseMessage P (Bytes.hexText signature))) :
    ∃ f₁ f₂ f₃, Exchanged P a b f₁ f₂ f₃ ∧ ∃ rA rB, Completed P K a b f₁ f₂ f₃ rA rB := by
  obtain ⟨f₁, f₂, f₃, h⟩ := exists_conversation hP ha hb hab hba hi hr
  exact ⟨f₁, f₂, f₃, h.exchanged, h.completed K⟩

namespace Loopback

-- A digest is the length and the last 31 bytes, read backwards.
def digest (m : Bytes) : Bytes :=
  .ofNat m.length :: (List.replicate 31 0 ++ m).reverse.take 31

theorem digest_length (m : Bytes) : (digest m).length = 32 := by
  simp only [digest, List.length_cons, List.length_take, List.length_reverse, List.length_append,
    List.length_replicate]
  omega

def pad (sk : Bytes) : Bytes :=
  (sk ++ List.replicate 32 0).take 32

theorem pad_length (sk : Bytes) : (pad sk).length = 32 := by
  simp [pad]

-- A signature is the digest followed by the key, and a shared value the sum of two keys.
def prims : Primitives where
  ed25519 := {
    publicKey := pad
    sign sk m := digest m ++ pad sk
    verify pk sig m := sig = digest m ++ pk
    publicKey_length := pad_length
    verify_sign := by simp
  }
  x25519 := {
    publicKey := pad
    exchange sk pk := some ((pad sk).zipWith (· + ·) pk)
    publicKey_length := pad_length
  }
  aead    := .transparent
  sha256  := digest
  floats  := .transparent

theorem prims_lawful : prims.Lawful where
  sign_length sk m := by
    change (digest m ++ pad sk).length = 64
    rw [List.length_append, digest_length, pad_length]
  sha256_length := digest_length
  exchange x y := by
    refine ⟨(pad x).zipWith (· + ·) (pad y), ?_, rfl, ?_⟩
    · rw [List.length_zipWith, pad_length, pad_length, Nat.min_self]
    · exact congrArg some (List.zipWith_comm_of_comm (fun u v => UInt8.add_comm u v))
  repr_length x := by
    have h := Json.decimal_length_le (k := 20) (by decide) (x.bits.toNat_lt.trans (by decide))
    change (decimal x.bits.toNat ++ [0x2E, digit 0] ++ []).length ≤ 24
    simp only [List.length_append, List.length_cons, List.length_nil]
    omega

-- A side whose keys and nonce repeat one byte
def device (byte : UInt8) (name : Text) : Side where
  party     := ⟨⟨List.replicate 32 byte⟩, name⟩
  ephemeral := [byte]
  nonce     := List.replicate 32 byte
  start     := .zero
  now       := ⟨.zero, .zero, .zero⟩
  store     := .empty
  cache     := ⟨NonceCache.defaultTtl, []⟩

theorem device_ready (byte : UInt8) {name : Text} (h : name.val.Encodable) : (device byte name).Ready :=
  have hz : ¬Double.zero.isNaN := by decide
  ⟨h, List.length_replicate, hz, hz⟩

theorem device_welcomes (byte : UInt8) (name : Text) (peer : Side) : (device byte name).Welcomes prims peer :=
  ⟨fun e he => (by cases he), fun r hr => (by cases hr)⟩

def alice : Side := device 0xAB (.ofString "alice")

def bob : Side := device 0xCD (.ofString "bob")

theorem alice_ready : alice.Ready := device_ready _ (Str.ofString_encodable _)

theorem bob_ready : bob.Ready := device_ready _ (Str.ofString_encodable _)

theorem alice_fits : Fits prims (alice.initMessage prims) :=
  fits_init prims_lawful alice_ready.nonce (by decide)

theorem bob_fits (signature : Bytes) (h : signature.length = 64) :
    Fits prims (bob.responseMessage prims signature.hexText) :=
  fits_response prims_lawful bob_ready.nonce (by decide) h

end Loopback

open Loopback

theorem honest_handshake_completes_alice_bob : alice.Ready ∧ bob.Ready ∧
    alice.Welcomes prims bob ∧ bob.Welcomes prims alice ∧
    ∃ f₁ f₂ f₃, Exchanged prims alice bob f₁ f₂ f₃ ∧
      ∃ rA rB, Completed prims .transparent alice bob f₁ f₂ f₃ rA rB := by
  have hab : alice.Welcomes prims bob := device_welcomes _ _ _
  have hba : bob.Welcomes prims alice := device_welcomes _ _ _
  exact ⟨alice_ready, bob_ready, hab, hba, honest_handshake_completes prims prims_lawful .transparent alice bob
    alice_ready bob_ready hab hba alice_fits bob_fits⟩

-- A device with a name that is longer than a message starts no handshake.
theorem performHandshakeInitiator_of_long_name {party : Party} {env : Env} {sh : Shared}
    (h : maxMessageSize < party.name.val.length) :
    ∃ e, (performHandshakeInitiator P party env).run sh = .error (.frame e) sh := by
  let init := initFields P party env.ephemeral env.nonce
  obtain ⟨e, he⟩ : ∃ e, encodeFrame P (makeHandshakeInit init.deviceId init.publicKey init.ephemeralKey
      init.nonce init.senderName env.start) = .error (.frame e) :=
    encodeFrame_of_long (k := .ofString "sender_name") (s := party.name) (by simp [init, initFields]) h
  have hs : initiatorStart P party env.ephemeral env.nonce env.start = .error (.frame e) := by
    simp only [initiatorStart]
    rw [he]
    rfl
  exact ⟨e, by simp [performHandshakeInitiator_eq, EStateM.run_bind, hs]⟩

namespace Loopback

theorem encodable_replicate (n : Nat) : Str.Encodable (List.replicate n 0x61) := by
  intro c hc
  rw [List.eq_of_mem_replicate hc]
  decide

-- A name that is too long for any message
def longName : Text :=
  ⟨List.replicate (maxMessageSize + 1) 0x61, .of_encodable (encodable_replicate _)⟩

theorem longName_encodable : longName.val.Encodable :=
  encodable_replicate _

def carol : Side := device 0xAB longName

end Loopback

theorem honest_handshake_long_name : carol.Ready ∧ bob.Ready ∧
    carol.Welcomes prims bob ∧ bob.Welcomes prims carol ∧
    ∀ first second, ∃ e, (performHandshakeInitiator prims carol.party (carol.env first second)).run
      carol.shared = .error (.frame e) carol.shared := by
  have hl : maxMessageSize < longName.val.length := by
    rw [longName, List.length_replicate]
    exact Nat.lt_succ_self _
  exact ⟨device_ready _ longName_encodable, bob_ready, device_welcomes _ _ _, device_welcomes _ _ _,
    fun _ _ => performHandshakeInitiator_of_long_name hl⟩

end Handshake
