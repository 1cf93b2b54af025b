import Peerc.Lib.Rounding
import Peerc.Protocol.Frame
import Peerc.Trust.Effect

-- core/crypto/handshake.py

namespace Handshake

-- `HandshakeError` and its subclasses come first. The others pass through: `write_frame`, the trust
-- store, the `cryptography` package (`valueError`), `encode` and `drain` raise them.
inductive Failure
  | timeout (msg : Message)
  | identityVerification (msg : Message)
  | signatureVerification (msg : Message)
  | deviceRevoked (msg : Message)
  | keyChanged (msg : Message)
  | protocol (msg : Message)
  | frame (e : Protocol.FrameError)
  | store (e : StoreError)
  | valueError
  | unicodeEncodeError
  | connection

-- The six fields of a message that are signed
@[ext]
structure Fields where
  type         : Text
  deviceId     : Text
  publicKey    : Text
  ephemeralKey : Text
  nonce        : Text
  senderName   : Text
  deriving DecidableEq

namespace Fields

def ofMessage (m : Json) : Fields where
  type         := m.text "type"
  deviceId     := m.text "device_id"
  publicKey    := m.text "public_key"
  ephemeralKey := m.text "ephemeral_key"
  nonce        := m.text "nonce"
  senderName   := m.text "sender_name"

def toDict (f : Fields) : List (Text × Json) := [
  (.ofString "type", .str f.type),
  (.ofString "device_id", .str f.deviceId),
  (.ofString "public_key", .str f.publicKey),
  (.ofString "ephemeral_key", .str f.ephemeralKey),
  (.ofString "nonce", .str f.nonce),
  (.ofString "sender_name", .str f.senderName)
]

end Fields

structure Result where
  peerDeviceId   : Text
  peerPublicKey  : Text
  peerName       : Text
  sharedSecret   : Bytes
  transcriptHash : Bytes
  trustDecision  : TrustDecision

-- A `dict` from nonces to the time they were seen
structure NonceCache where
  ttl  : Double
  seen : List (Text × Double)

namespace NonceCache

-- 300.0
def defaultTtl : Double := ⟨0x4072C00000000000⟩

-- `now - t > self._ttl`
def expired (c : NonceCache) (now : Double) (t : Double) : Bool :=
  Double.subGt now t c.ttl

-- `check_and_add`: `true` if the nonce is fresh
def checkAndAdd (c : NonceCache) (nonce : Text) (now : Double) : Bool × NonceCache :=
  let seen := c.seen.filter (!c.expired now ·.snd)
  if seen.any (·.fst = nonce) then (false, { c with seen }) else
    (true, { c with seen := seen ++ [(nonce, now)] })

end NonceCache

-- What the handshakes of one process share
structure Shared where
  store : Option TrustStore
  cache : NonceCache

abbrev HandshakeM := EStateM Failure Shared

-- `_canonical_json_bytes`
def canonicalJsonBytes (P : Primitives) (fields : List (Text × Json)) : Option Bytes :=
  ((Json.obj (Json.sortKeys fields)).dumps P.floats .compact).bind Str.encodeUtf8

def responderDomain : Bytes := Bytes.ascii "peerc-v2-handshake-responder\n"

def initiatorDomain : Bytes := Bytes.ascii "peerc-v2-handshake-initiator\n"

def newline : Bytes := [0x0A]

def computeResponderTranscript (P : Primitives) (init resp : Fields) : Option Bytes := do
  let initBytes ← canonicalJsonBytes P init.toDict
  let respBytes ← canonicalJsonBytes P resp.toDict
  return responderDomain ++ initBytes ++ newline ++ respBytes

def computeInitiatorTranscript (responderTranscript : Bytes) (responderSignatureHex : Str) :
    Option Bytes := do
  let signature ← responderSignatureHex.encodeAscii
  return initiatorDomain ++ responderTranscript ++ newline ++ signature

def computeFinalTranscriptHash (P : Primitives) (initiatorTranscript : Bytes)
    (initiatorSignatureHex : Str) : Option Bytes := do
  let signature ← initiatorSignatureHex.encodeAscii
  return P.sha256 (initiatorTranscript ++ newline ++ signature)

-- `_verify_device_identity`
def verifyDeviceIdentity (P : Primitives) (deviceId publicKeyHex : Str) : Except Failure Bytes :=
  match Bytes.fromHex publicKeyHex with
  | none => .error <| .identityVerification [.text "invalid hex for public_key: ", .exc "ValueError"]
  | some pubBytes =>
    let expectedId := computeDeviceId P pubBytes
    if expectedId ≠ deviceId then
      .error <| .identityVerification [.text "device_id mismatch: claimed ", .repr deviceId,
        .text ", computed ", .repr expectedId, .text " from public key"]
    else .ok pubBytes

def Failure.ofTrust : TrustError → Failure
  | .deviceRevoked msg => .deviceRevoked msg
  | .keyChanged msg    => .keyChanged msg
  | .store e           => .store e

-- `_check_and_update_trust`
def checkAndUpdateTrust (deviceId publicKeyHex peerName : Str) (now : Double) :
    HandshakeM TrustDecision := do
  match (← get).store with
  | none       => return .unknown
  | some store =>
    match (TrustStore.checkAndUpdateTrust deviceId publicKeyHex peerName now).run store with
    | .ok decision store => modify ({ · with store := some store }); return decision
    | .error e store     => modify ({ · with store := some store }); throw (.ofTrust e)

def checkNonce (role : String) (nonce : Text) (now : Double) : HandshakeM Unit := do
  let (fresh, cache) := (← get).cache.checkAndAdd nonce now
  modify ({ · with cache })
  if !fresh then
    throw <| .protocol [.text "replayed ", .text role, .text " nonce detected"]

def liftExcept {α : Type} : Except Failure α → HandshakeM α
  | .ok a    => pure a
  | .error e => throw e

-- The message `m` is valid and of type `name`.
def expectMessage (name : String) (m : Json) : Except Failure Unit :=
  match Protocol.validateMessage m with
  | .error e => .error <| .protocol <| [.text "invalid ", .text name, .text " message: "] ++ e
  | .ok _    =>
    if m.text? "type" ≠ some (.ofString name) then
      .error <| .protocol [.text "expected '", .text name, .text "', got ",
        .json ((m.get? (.ofString "type")).getD .null)]
    else .ok ()

-- The signature check of either role; `bytes.fromhex` raises `ValueError`.
def verifySignature (P : Primitives) (role : String) (pub : Bytes) (signature : Str)
    (transcript : Bytes) : Except Failure Unit :=
  match Bytes.fromHex signature with
  | none => .error <| .signatureVerification
      [.text "invalid ", .text role, .text " signature: ", .exc "ValueError"]
  | some sigBytes =>
    if P.ed25519.verify pub sigBytes transcript then .ok ()
    else .error <| .signatureVerification
      [.text "invalid ", .text role, .text " signature: ", .exc "InvalidSignature"]

-- `ephemeral_public_from_hex` of core/crypto/key_exchange.py
def ephemeralPublicFromHex (hex : Str) : Except Failure Bytes :=
  match Bytes.fromHex hex with
  | none => .error <| .protocol [.text "invalid peer ephemeral key: ",
      .text "invalid hex for X25519 public key: ", .exc "ValueError"]
  | some raw =>
    if raw.length ≠ 32 then
      .error <| .protocol [.text "invalid peer ephemeral key: ",
        .text "X25519 public key must be exactly 32 bytes, got ", .int raw.length]
    else .ok raw

-- The last step of either role
def sharedSecret (P : Primitives) (ephemeral : Bytes) (peerEphemeralKey : Str) :
    Except Failure Bytes := do
  let peer ← ephemeralPublicFromHex peerEphemeralKey
  match P.x25519.exchange ephemeral peer with
  | none        => throw .valueError
  | some secret => return secret

structure Clocks where
  cache : Double
  trust : Double
  send  : Double

-- What both roles do with the message that names the peer: steps 3 to 6 of the initiator and 1 to 4 of
-- the responder
def checkPeer (P : Primitives) (name role : String) (m : Json) (now : Clocks) :
    HandshakeM (Bytes × TrustDecision) := do
  liftExcept <| expectMessage name m
  let peer := Fields.ofMessage m
  checkNonce role peer.nonce now.cache
  let peerPubBytes ← liftExcept <| verifyDeviceIdentity P peer.deviceId.val peer.publicKey.val
  let trustDecision ← checkAndUpdateTrust peer.deviceId.val peer.publicKey.val peer.senderName.val
    now.trust
  return (peerPubBytes, trustDecision)

structure Party where
  identity : DeviceKeypair
  name     : Text
  deriving DecidableEq

def ofOption {α : Type} (e : Failure) : Option α → Except Failure α
  | none   => .error e
  | some a => .ok a

def encodeFrame (P : Primitives) (m : Json) : Except Failure Bytes :=
  match Protocol.encodeFrame P m with
  | .ok frame => .ok frame
  | .error e  => .error (.frame e)

-- The two roles, cut at their `await`s. `ephemeral` is the private key and `nonce` the random bytes
-- that were drawn; every clock reading is a parameter.

-- An initiator that has sent its first message
structure InitSent where
  party     : Party
  ephemeral : Bytes
  init      : Fields
  deriving DecidableEq

def initFields (P : Primitives) (party : Party) (ephemeral nonce : Bytes) : Fields where
  type         := .ofString "handshake_init"
  deviceId     := (P.sha256 (party.identity.publicKeyBytes P)).hexText
  publicKey    := (party.identity.publicKeyBytes P).hexText
  ephemeralKey := (P.x25519.publicKey ephemeral).hexText
  nonce        := nonce.hexText
  senderName   := party.name

def initiatorStart (P : Primitives) (party : Party) (ephemeral nonce : Bytes) (now : Double) :
    Except Failure (InitSent × Bytes) := do
  let init := initFields P party ephemeral nonce
  let initMsg := Protocol.makeHandshakeInit init.deviceId init.publicKey init.ephemeralKey init.nonce
    init.senderName now
  let frame ← encodeFrame P initMsg
  return (⟨party, ephemeral, init⟩, frame)

-- An initiator that has accepted the response and sent its last message
structure FinishSent extends InitSent where
  response      : Fields
  signature     : Text
  transcript    : Bytes
  mySignature   : Text
  trustDecision : TrustDecision
  deriving DecidableEq

-- Steps 7 and 8
def initiatorSign (P : Primitives) (st : InitSent) (respMsg : Json) (peerPubBytes : Bytes)
    (trustDecision : TrustDecision) : Except Failure FinishSent := do
  let response := Fields.ofMessage respMsg
  let signature := respMsg.text "signature"
  let respTranscript ← ofOption .valueError <| computeResponderTranscript P st.init response
  let responderPub ← ofOption .valueError <| publicKeyFromBytes peerPubBytes
  verifySignature P "responder" responderPub signature.val respTranscript
  let transcript ← ofOption .unicodeEncodeError <|
    computeInitiatorTranscript respTranscript signature.val
  let mySignature := (st.party.identity.sign P transcript).hexText
  return { st with response, signature, transcript, mySignature, trustDecision }

-- Step 9
def initiatorReply (P : Primitives) (st : InitSent) (respMsg : Json) (peerPubBytes : Bytes)
    (trustDecision : TrustDecision) (now : Double) : Except Failure (FinishSent × Bytes) := do
  let st ← initiatorSign P st respMsg peerPubBytes trustDecision
  let frame ← encodeFrame P <| Protocol.makeHandshakeFinish st.mySignature now
  return (st, frame)

def initiatorOnResponse (P : Primitives) (st : InitSent) (respMsg : Json) (now : Clocks) :
    HandshakeM (FinishSent × Bytes) := do
  let (peerPubBytes, trustDecision) ← checkPeer P "handshake_response" "responder" respMsg now
  liftExcept <| initiatorReply P st respMsg peerPubBytes trustDecision now.send

def initiatorFinish (P : Primitives) (st : FinishSent) : Except Failure Result := do
  let secret ← sharedSecret P st.ephemeral st.response.ephemeralKey.val
  let transcriptHash ← ofOption .unicodeEncodeError <|
    computeFinalTranscriptHash P st.transcript st.mySignature.val
  return {
    peerDeviceId  := st.response.deviceId
    peerPublicKey := st.response.publicKey
    peerName      := st.response.senderName
    sharedSecret  := secret
    transcriptHash
    trustDecision := st.trustDecision
  }

-- A responder that has sent its message
structure ResponseSent where
  party         : Party
  ephemeral     : Bytes
  init          : Fields
  response      : Fields
  peerPubBytes  : Bytes
  transcript    : Bytes
  mySignature   : Text
  trustDecision : TrustDecision
  deriving DecidableEq

def responseFields (P : Primitives) (party : Party) (ephemeral nonce : Bytes) : Fields :=
  { initFields P party ephemeral nonce with type := .ofString "handshake_response" }

-- Steps 5 and 6
def responderSign (P : Primitives) (party : Party) (ephemeral nonce : Bytes) (initMsg : Json)
    (peerPubBytes : Bytes) (trustDecision : TrustDecision) : Except Failure ResponseSent := do
  let init := Fields.ofMessage initMsg
  let response := responseFields P party ephemeral nonce
  let transcript ← ofOption .valueError <| computeResponderTranscript P init response
  let mySignature := (party.identity.sign P transcript).hexText
  return { party, ephemeral, init, response, peerPubBytes, transcript, mySignature, trustDecision }

-- Step 7
def responderReply (P : Primitives) (party : Party) (ephemeral nonce : Bytes) (initMsg : Json)
    (peerPubBytes : Bytes) (trustDecision : TrustDecision) (now : Double) :
    Except Failure (ResponseSent × Bytes) := do
  let st ← responderSign P party ephemeral nonce initMsg peerPubBytes trustDecision
  let respMsg := Protocol.makeHandshakeResponse st.response.deviceId st.response.publicKey
    st.response.ephemeralKey st.response.nonce st.response.senderName st.mySignature now
  let frame ← encodeFrame P respMsg
  return (st, frame)

def responderOnInit (P : Primitives) (party : Party) (ephemeral nonce : Bytes) (initMsg : Json)
    (now : Clocks) : HandshakeM (ResponseSent × Bytes) := do
  let (peerPubBytes, trustDecision) ← checkPeer P "handshake_init" "initiator" initMsg now
  liftExcept <| responderReply P party ephemeral nonce initMsg peerPubBytes trustDecision now.send

def responderOnFinish (P : Primitives) (st : ResponseSent) (finishMsg : Json) :
    Except Failure Result := do
  expectMessage "handshake_finish" finishMsg
  let signature := finishMsg.text "signature"
  let transcript ← ofOption .unicodeEncodeError <|
    computeInitiatorTranscript st.transcript st.mySignature.val
  let initiatorPub ← ofOption .valueError <| publicKeyFromBytes st.peerPubBytes
  verifySignature P "initiator" initiatorPub signature.val transcript
  let secret ← sharedSecret P st.ephemeral st.init.ephemeralKey.val
  let transcriptHash ← ofOption .unicodeEncodeError <|
    computeFinalTranscriptHash P transcript signature.val
  return {
    peerDeviceId  := st.init.deviceId
    peerPublicKey := st.init.publicKey
    peerName      := st.init.senderName
    sharedSecret  := secret
    transcriptHash
    trustDecision := st.trustDecision
  }

-- The outcome of `asyncio.wait_for(read_frame(reader), timeout)`: the payload of a JSON frame, or none
inductive ReadOutcome
  | timeout
  | failed (e : Message)
  | payload (bytes : Bytes)

def awaitFrame (P : Primitives) (name : String) : ReadOutcome → Except Failure Json
  | .timeout  => .error <| .timeout [.text "timed out waiting for ", .text name]
  | .failed e => .error <| .protocol <| [.text "failed to read ", .text name, .text ": "] ++ e
  | .payload bytes =>
    match Protocol.decodeJson P bytes with
    | .ok m                    => .ok m
    | .error (.protocolError e) =>
      .error <| .protocol <| [.text "failed to read ", .text name, .text ": "] ++ e
    | .error .valueError        =>
      .error <| .protocol [.text "failed to read ", .text name, .text ": ", .exc "ValueError"]

-- What the user does to the trust store while the handshake is suspended
def interfere (P : Primitives) (calls : List Call) : HandshakeM Unit :=
  modify fun s => { s with store := s.store.map (·.run P calls) }

-- `await writer.drain()`
def drain (ok : Bool) : Except Failure Unit :=
  if ok then .ok () else .error .connection

-- Everything the environment decides during one handshake. `before` and `after` are the calls of the
-- user up to the arrival of the first message, and from then on until the function returns.
structure Env where
  ephemeral : Bytes
  nonce     : Bytes
  start     : Double
  now       : Clocks
  before    : List Call
  drain₁    : Bool
  first     : ReadOutcome
  after     : List Call
  drain₂    : Bool
  second    : ReadOutcome

def performHandshakeInitiator (P : Primitives) (party : Party) (env : Env) : HandshakeM Result := do
  let (st, _) ← liftExcept <| initiatorStart P party env.ephemeral env.nonce env.start
  interfere P env.before
  liftExcept <| drain env.drain₁
  let respMsg ← liftExcept <| awaitFrame P "handshake_response" env.first
  let (st, _) ← initiatorOnResponse P st respMsg env.now
  interfere P env.after
  liftExcept <| drain env.drain₂
  liftExcept <| initiatorFinish P st

def performHandshakeResponder (P : Primitives) (party : Party) (env : Env) : HandshakeM Result := do
  interfere P env.before
  let initMsg ← liftExcept <| awaitFrame P "handshake_init" env.first
  let (st, _) ← responderOnInit P party env.ephemeral env.nonce initMsg env.now
  interfere P env.after
  liftExcept <| drain env.drain₂
  let finishMsg ← liftExcept <| awaitFrame P "handshake_finish" env.second
  liftExcept <| responderOnFinish P st finishMsg

end Handshake
