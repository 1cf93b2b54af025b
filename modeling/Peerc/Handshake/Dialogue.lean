import Peerc.Lib.Json.Size
import Peerc.Handshake.Keys
import Peerc.Handshake.Outcome
import Peerc.Handshake.Theorems.Transcript

-- The messages that two parties exchange over a connection that delivers them

-- What the `cryptography` package and the interpreter promise: the sizes of a signature, of a digest and of
-- the text of a number, and that X25519 works for generated keys, whichever side computes it.
structure Primitives.Lawful (P : Primitives) : Prop where
  sign_length   : ∀ sk m, (P.ed25519.sign sk m).length = 64
  sha256_length : ∀ m, (P.sha256 m).length = 32
  exchange      : ∀ a b, ∃ secret, secret.length = 32 ∧
    P.x25519.exchange a (P.x25519.publicKey b) = some secret ∧
    P.x25519.exchange b (P.x25519.publicKey a) = some secret
  repr_length   : ∀ x, (P.floats.repr x).render.length ≤ 24

namespace Bytes

theorem hexText_ne_nil {bs : Bytes} (h : bs ≠ []) : bs.hexText.val ≠ [] := by
  cases bs
  case nil => exact absurd rfl h
  case cons b bs => exact List.cons_ne_nil _ _

theorem hexText_ne_nil_of_length {bs : Bytes} {n : Nat} (h : bs.length = n + 1) : bs.hexText.val ≠ [] :=
  hexText_ne_nil (List.ne_nil_of_length_eq_add_one h)

end Bytes

namespace Handshake

open Protocol

variable {P : Primitives} {m : Json} {frame : Bytes} {now : Double}

-- What `read_frame` makes of the bytes that have arrived
def ReadOutcome.ofBytes (stream : Bytes) : ReadOutcome :=
  match (readRaw readExactly).run stream with
  | .ok (.json, bytes) _     => .payload bytes
  | .ok (.binary, _) _       => .failed [.text "expected a JSON frame but got a binary frame"]
  | .error .incompleteRead _ => .failed [.exc "IncompleteReadError"]
  | .error (.frame e) _      => .failed e.message

theorem encodeFrame_eq_ok : encodeFrame P m = .ok frame ↔ Protocol.encodeFrame P m = .ok frame := by
  simp only [encodeFrame]
  cases Protocol.encodeFrame P m <;> simp

-- The message fits into a frame.
def Fits (P : Primitives) (m : Json) : Prop :=
  ∃ payload, encodeJson P m = some payload ∧ payload.length ≤ maxMessageSize

theorem Fits.encodeFrame (h : Fits P m) : ∃ frame, encodeFrame P m = .ok frame := by
  obtain ⟨payload, he, hl⟩ := h
  refine ⟨Bytes.ofNatBE 4 payload.length ++ payload, encodeFrame_eq_ok.mpr ?_⟩
  simp only [Protocol.encodeFrame, he, if_neg (Nat.not_lt.mpr hl)]

-- A message with few short fields fits.
theorem fits_of_dumps {n : Nat} {fields : List (Text × Json)}
    (h : ∀ kv ∈ fields, ∃ tv, Json.dumps P.floats .default kv.snd = some tv ∧
      12 * kv.fst.val.length + tv.length ≤ n)
    (hn : (n + 6) * fields.length + 2 ≤ maxMessageSize) : Fits P (.obj fields) := by
  obtain ⟨t, ht, hl⟩ := Json.dumps_obj_length_le h
  have ha := Json.dumps_isAscii _ t ht
  obtain ⟨b, hb⟩ : ∃ b, t.encodeUtf8 = some b := by
    simp [Str.encodeUtf8, ha.encodable]
  refine ⟨b, by simp [encodeJson, ht, hb], ?_⟩
  rw [Str.encodeUtf8_length ha hb]
  exact hl.trans hn

-- A message with a text that is too long for a frame is not sent.
theorem encodeFrame_of_long {k s : Text} {fields : List (Text × Json)} (hk : (k, .str s) ∈ fields)
    (hs : maxMessageSize < s.val.length) : ∃ e, encodeFrame P (.obj fields) = .error (.frame e) := by
  simp only [encodeFrame, Protocol.encodeFrame]
  cases he : encodeJson P (.obj fields)
  case none => exact ⟨_, rfl⟩
  case some payload =>
    have hl : payload.length > maxMessageSize := by
      simp only [encodeJson, Option.bind_eq_some_iff] at he
      obtain ⟨t, hd, he⟩ := he
      rw [Str.encodeUtf8_length (Json.dumps_isAscii _ t hd) he]
      exact Nat.lt_of_lt_of_le hs (Json.length_le_dumps hk hd)
    simp only [if_pos hl]
    exact ⟨_, rfl⟩

theorem encodeJson_obj_ne_nil {fields : List (Text × Json)} {payload : Bytes}
    (h : encodeJson P (.obj fields) = some payload) : payload ≠ [] := by
  simp only [encodeJson, Option.bind_eq_some_iff] at h
  obtain ⟨t, hd, he⟩ := h
  have hl := Str.encodeUtf8_length (Json.dumps_isAscii _ t hd) he
  simp only [Json.dumps, Option.pure_def, Option.bind_eq_bind, Option.bind_eq_some_iff,
    Option.some.injEq] at hd
  obtain ⟨tf, -, rfl⟩ := hd
  exact List.ne_nil_of_length_eq_add_one hl

-- What was written is what is read.
theorem awaitFrame_ofBytes {fields : List (Text × Json)} (hw : (Json.obj fields).WellFormed)
    (h : encodeFrame P (.obj fields) = .ok frame) (name : String) :
    awaitFrame P name (.ofBytes frame) = .ok (.obj fields) := by
  have h := encodeFrame_eq_ok.mp h
  simp only [Protocol.encodeFrame] at h
  split at h
  case h_1 => cases h
  case h_2 payload he =>
    split at h <;> cases h
    case isFalse hl =>
      have hl := Nat.le_of_not_lt hl
      have hr := readRaw_run (isHeader_json hl) (encodeJson_obj_ne_nil he) hl []
      rw [List.append_nil] at hr
      simp only [ReadOutcome.ofBytes, hr, awaitFrame, decodeJson_encodeJson hw he]

-- One side of a conversation: what it draws, reads off the clock and has stored
structure Side where
  party     : Party
  ephemeral : Bytes
  nonce     : Bytes
  start     : Double
  now       : Clocks
  store     : TrustStore
  cache     : NonceCache

namespace Side

def publicKey (P : Primitives) (side : Side) : Bytes :=
  side.party.identity.publicKeyBytes P

def shared (side : Side) : Shared :=
  ⟨some side.store, side.cache⟩

-- The connection works, and nobody else uses the store.
def env (side : Side) (first second : ReadOutcome) : Env where
  ephemeral := side.ephemeral
  nonce     := side.nonce
  start     := side.start
  now       := side.now
  before    := []
  drain₁    := true
  first     := first
  after     := []
  drain₂    := true
  second    := second

def init (P : Primitives) (side : Side) : Fields :=
  initFields P side.party side.ephemeral side.nonce

def response (P : Primitives) (side : Side) : Fields :=
  responseFields P side.party side.ephemeral side.nonce

def initMessage (P : Primitives) (side : Side) : Json :=
  makeHandshakeInit (side.init P).deviceId (side.init P).publicKey (side.init P).ephemeralKey
    (side.init P).nonce (side.init P).senderName side.start

def responseMessage (P : Primitives) (side : Side) (signature : Text) : Json :=
  makeHandshakeResponse (side.response P).deviceId (side.response P).publicKey
    (side.response P).ephemeralKey (side.response P).nonce (side.response P).senderName signature
    side.now.send

end Side

variable {side : Side} {signature : Text}

theorem initMessage_wellFormed (h : ¬side.start.isNaN) : (side.initMessage P).WellFormed := by
  refine ⟨?_, trivial, trivial, trivial, trivial, trivial, trivial, trivial, Json.float_wellFormed h, trivial⟩
  simp only [List.map_cons, List.map_nil]
  decide

theorem responseMessage_wellFormed (h : ¬side.now.send.isNaN) :
    (side.responseMessage P signature).WellFormed := by
  refine ⟨?_, trivial, trivial, trivial, trivial, trivial, trivial, trivial, trivial, Json.float_wellFormed h,
    trivial⟩
  simp only [List.map_cons, List.map_nil]
  decide

theorem makeHandshakeFinish_wellFormed (h : ¬now.isNaN) :
    (makeHandshakeFinish signature now).WellFormed := by
  refine ⟨?_, trivial, trivial, trivial, Json.float_wellFormed h, trivial⟩
  simp only [List.map_cons, List.map_nil]
  decide

theorem checkNonEmptyText_of_text? {msgType : String} {s : Text} (m : Json) (field : String)
    (h : m.text? field = some s) (hs : s.val ≠ []) : checkNonEmptyText msgType field m = .ok () := by
  simp only [checkNonEmptyText, h, if_neg hs]
  rfl

-- The four fields that a message must not leave empty
structure Fields.Filled (f : Fields) : Prop where
  deviceId     : f.deviceId.val ≠ []
  publicKey    : f.publicKey.val ≠ []
  ephemeralKey : f.ephemeralKey.val ≠ []
  nonce        : f.nonce.val ≠ []

theorem init_filled (hP : P.Lawful) (hn : side.nonce ≠ []) : (side.init P).Filled where
  deviceId     := Bytes.hexText_ne_nil_of_length (hP.sha256_length _)
  publicKey    := Bytes.hexText_ne_nil_of_length (P.ed25519.publicKey_length _)
  ephemeralKey := Bytes.hexText_ne_nil_of_length (P.x25519.publicKey_length _)
  nonce        := Bytes.hexText_ne_nil hn

theorem expectMessage_init (h : (side.init P).Filled) :
    expectMessage "handshake_init" (side.initMessage P) = .ok () := by
  have hc : validateMessage (side.initMessage P) =
      checkHandshake "handshake_init" (side.initMessage P) := rfl
  have hv : validateMessage (side.initMessage P) = .ok () := by
    rw [hc]
    simp only [checkHandshake, List.forIn_cons, List.forIn_nil,
      checkNonEmptyText_of_text? (side.initMessage P) "device_id" rfl h.deviceId,
      checkNonEmptyText_of_text? (side.initMessage P) "public_key" rfl h.publicKey,
      checkNonEmptyText_of_text? (side.initMessage P) "ephemeral_key" rfl h.ephemeralKey,
      checkNonEmptyText_of_text? (side.initMessage P) "nonce" rfl h.nonce]
    rfl
  simp only [expectMessage, hv]
  rfl

theorem expectMessage_response (h : (side.init P).Filled) (hs : signature.val ≠ []) :
    expectMessage "handshake_response" (side.responseMessage P signature) = .ok () := by
  have hc : validateMessage (side.responseMessage P signature) = (do
      checkHandshake "handshake_response" (side.responseMessage P signature)
      checkSignature "handshake_response" (side.responseMessage P signature)) := rfl
  have hv : validateMessage (side.responseMessage P signature) = .ok () := by
    rw [hc]
    simp only [checkHandshake, checkSignature, List.forIn_cons, List.forIn_nil,
      checkNonEmptyText_of_text? (side.responseMessage P signature) "device_id" rfl h.deviceId,
      checkNonEmptyText_of_text? (side.responseMessage P signature) "public_key" rfl h.publicKey,
      checkNonEmptyText_of_text? (side.responseMessage P signature) "ephemeral_key" rfl h.ephemeralKey,
      checkNonEmptyText_of_text? (side.responseMessage P signature) "nonce" rfl h.nonce,
      checkNonEmptyText_of_text? (side.responseMessage P signature) "signature" rfl hs]
    rfl
  simp only [expectMessage, hv]
  rfl

theorem expectMessage_finish (hs : signature.val ≠ []) :
    expectMessage "handshake_finish" (makeHandshakeFinish signature now) = .ok () := by
  have hc : validateMessage (makeHandshakeFinish signature now) =
      checkSignature "handshake_finish" (makeHandshakeFinish signature now) := rfl
  simp only [expectMessage, hc, checkSignature,
    checkNonEmptyText_of_text? (makeHandshakeFinish signature now) "signature" rfl hs]
  rfl

-- A transcript can always be computed.
theorem computeResponderTranscript_isSome (init resp : Fields) :
    ∃ t, computeResponderTranscript P init resp = some t := by
  have h (f : Fields) : ∃ b, canonicalJsonBytes P f.toDict = some b := by
    obtain ⟨t, ht⟩ : ∃ t, f.canonical.dumps P.floats .compact = some t :=
      Option.isSome_iff_exists.mp (by simp [Fields.canonical, Json.dumps, Json.dumpsFields])
    have ha := Json.dumps_isAscii _ t ht
    simp [canonicalJsonBytes, Fields.sortKeys_toDict, ht, Str.encodeUtf8, ha.encodable]
  obtain ⟨b, hb⟩ := h init
  obtain ⟨c, hc⟩ := h resp
  simp [computeResponderTranscript, hb, hc]

-- What is signed and hashed for the fields that both sides have used

def responderTranscript (P : Primitives) (init response : Fields) : Bytes :=
  (computeResponderTranscript P init response).getD []

-- The text of the signature that the responder sends
def responseSignature (P : Primitives) (responder : Party) (init response : Fields) : Text :=
  (responder.identity.sign P (responderTranscript P init response)).hexText

def initiatorTranscript (P : Primitives) (init response : Fields) (received : Text) : Bytes :=
  (computeInitiatorTranscript (responderTranscript P init response) received.val).getD []

-- The text of the signature that the initiator sends once it has received the one of the responder
def finishSignature (P : Primitives) (initiator : Party) (init response : Fields) (received : Text) :
    Text :=
  (initiator.identity.sign P (initiatorTranscript P init response received)).hexText

theorem computeResponderTranscript_eq_responderTranscript (init response : Fields) :
    computeResponderTranscript P init response = some (responderTranscript P init response) := by
  obtain ⟨t, ht⟩ := computeResponderTranscript_isSome (P := P) init response
  rw [responderTranscript, ht, Option.getD_some]

theorem computeInitiatorTranscript_eq_initiatorTranscript {received : Text} (init response : Fields)
    (h : received.val.IsAscii) :
    computeInitiatorTranscript (responderTranscript P init response) received.val =
      some (initiatorTranscript P init response received) := by
  simp [initiatorTranscript, computeInitiatorTranscript, Str.encodeAscii, h]

theorem hex_bound {bs : Bytes} {k n : Nat} (h : bs.length = k) (hn : 24 * k + 242 ≤ n) :
    12 * bs.hexText.val.length + 242 ≤ n := by
  rw [Bytes.hexText, Bytes.hex_length, h]
  omega

-- The texts of a `handshake_finish` are short.
theorem fits_finish (hP : P.Lawful) (hs : signature.val.length ≤ 1000) (now : Double) :
    Fits P (makeHandshakeFinish signature now) := by
  refine fits_of_dumps (n := 13000) ?_ (by simp only [List.length_cons, List.length_nil]; decide)
  simp only [List.forall_mem_cons]
  exact ⟨⟨_, rfl, by decide⟩, ⟨_, rfl, by decide⟩, Json.str_field_length_le (by decide) (by omega),
    Json.float_field_length_le (by decide) hP.repr_length (by decide), List.forall_mem_nil _⟩

-- So are the ones of the other two messages, unless the name is long.

theorem fits_init (hP : P.Lawful) (hn : side.nonce.length = 32)
    (hl : side.party.name.val.length ≤ 500000) : Fits P (side.initMessage P) := by
  refine fits_of_dumps (n := 7000000) ?_ (by simp only [List.length_cons, List.length_nil]; decide)
  simp only [List.forall_mem_cons]
  exact ⟨⟨_, rfl, by decide⟩, ⟨_, rfl, by decide⟩,
    Json.str_field_length_le (by decide) (hex_bound (hP.sha256_length _) (by decide)),
    Json.str_field_length_le (by decide) (hex_bound (P.ed25519.publicKey_length _) (by decide)),
    Json.str_field_length_le (by decide) (hex_bound (P.x25519.publicKey_length _) (by decide)),
    Json.str_field_length_le (by decide) (hex_bound hn (by decide)),
    Json.str_field_length_le (by decide) (by dsimp only [Side.init, initFields]; omega),
    Json.float_field_length_le (by decide) hP.repr_length (by decide), List.forall_mem_nil _⟩

theorem fits_response (hP : P.Lawful) (hn : side.nonce.length = 32)
    (hl : side.party.name.val.length ≤ 500000) {sig : Bytes} (hs : sig.length = 64) :
    Fits P (side.responseMessage P sig.hexText) := by
  refine fits_of_dumps (n := 7000000) ?_ (by simp only [List.length_cons, List.length_nil]; decide)
  simp only [List.forall_mem_cons]
  exact ⟨⟨_, rfl, by decide⟩, ⟨_, rfl, by decide⟩,
    Json.str_field_length_le (by decide) (hex_bound (hP.sha256_length _) (by decide)),
    Json.str_field_length_le (by decide) (hex_bound (P.ed25519.publicKey_length _) (by decide)),
    Json.str_field_length_le (by decide) (hex_bound (P.x25519.publicKey_length _) (by decide)),
    Json.str_field_length_le (by decide) (hex_bound hn (by decide)),
    Json.str_field_length_le (by decide) (by dsimp only [Side.response, responseFields, initFields]; omega),
    Json.str_field_length_le (by decide) (hex_bound hs (by decide)),
    Json.float_field_length_le (by decide) hP.repr_length (by decide), List.forall_mem_nil _⟩

end Handshake
