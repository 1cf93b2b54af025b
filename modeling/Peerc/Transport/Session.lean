import Mathlib.Logic.Function.Basic
import Mathlib.Logic.Relation
import Peerc.Transport.Effect

-- A call of `send_message` or of `send_binary`
inductive Outgoing
  | message (message : Json)
  | binary (payload : Bytes)

namespace Outgoing

open EncryptedTransport

variable {P : Primitives} {out : Outgoing} {ad p : Bytes} {drain : Drain}

def WellFormed : Outgoing → Prop
  | message m => m.WellFormed
  | binary _  => True

def send (P : Primitives) (ad : Bytes) (drain : Drain) : Outgoing → TransportM Unit
  | message m      => sendMessage P m ad drain
  | binary payload => sendBinary P payload ad drain

def content : Outgoing → Content
  | message m      => .json m
  | binary payload => .binary payload

-- What is passed on to `_send_encrypted`, or what is raised before
def inner (P : Primitives) : Outgoing → Except TransportFailure Bytes
  | message (.obj fields) =>
    match Protocol.encodeJson P (.obj fields) with
    | none         => .error .valueError
    | some rawJson => .ok (typeJson :: rawJson)
  | message m      => .error <| .transportError [.text "Expected dict message, got ", .text m.typeName]
  | binary payload => .ok (typeBinary :: payload)

theorem send_eq (P : Primitives) (ad : Bytes) (drain : Drain) (out : Outgoing) :
    out.send P ad drain =
      match out.inner P with
      | .ok p    => sendEncrypted P p ad drain
      | .error e => throw e := by
  match out with
  | message (.obj fields) =>
    simp only [send, sendMessage, inner]
    cases Protocol.encodeJson P (.obj fields) <;> rfl
  | binary _ | message .null | message (.bool _) | message (.int _) | message (.float _)
  | message (.str _) | message (.arr _) => rfl

theorem inner_eq_error {e : TransportFailure} (h : out.inner P = .error e) :
    e = .valueError ∨ ∃ msg, e = .transportError msg := by
  match out with
  | binary _ => cases h
  | message (.obj fields) =>
    simp only [inner] at h
    split at h <;> cases h
    exact .inl rfl
  | message .null | message (.bool _) | message (.int _) | message (.float _) | message (.str _)
  | message (.arr _) =>
    cases h
    exact .inr ⟨_, rfl⟩

theorem send_run_error {e : TransportFailure} (h : out.inner P = .error e) (t : EncryptedTransport) :
    (out.send P ad drain).run t = .error e t := by
  rw [send_eq, h]
  rfl

theorem send_run (h : out.inner P = .ok p) (t : EncryptedTransport) :
    (out.send P ad drain).run t = (sendEncrypted P p ad drain).run t := by
  rw [send_eq, h]

-- What was sent is what the peer makes of it.
theorem decodePlaintext_inner (hw : out.WellFormed) (h : out.inner P = .ok p) :
    decodePlaintext P p = .ok out.content := by
  match out with
  | binary _ =>
    cases h
    rfl
  | message (.obj fields) =>
    simp only [inner] at h
    split at h <;> cases h
    case h_2 he =>
      simp only [decodePlaintext, if_true, Protocol.loadsUtf8_encodeJson hw he]
      rfl
  | message .null | message (.bool _) | message (.int _) | message (.float _) | message (.str _)
  | message (.arr _) => cases h

end Outgoing

-- Two ends of one session, over a network that an adversary controls

inductive Side
  | left
  | right
  deriving DecidableEq

def Side.other : Side → Side
  | left  => right
  | right => left

structure Sent where
  out : Outgoing
  ad  : Bytes

-- `sent` lists the calls that have encrypted a frame, in the order of the encryptions, and `received`
-- what the calls of `receive_frame` have returned.
structure Endpoint where
  transport : EncryptedTransport
  sent      : List Sent := []
  received  : List Content := []

namespace Endpoint

-- A frame is encrypted if and only if the counter has changed.
def record (e : Endpoint) (s : Sent) (transport : EncryptedTransport) : Endpoint :=
  if transport.channel.sendSequence = e.transport.channel.sendSequence then { e with transport }
  else { e with transport, sent := e.sent ++ [s] }

-- A task that sends runs without a suspension until it awaits `drain`.
def send (P : Primitives) (e : Endpoint) (s : Sent) : Endpoint :=
  match (s.out.send P s.ad .flushed).run e.transport with
  | .ok _ transport | .error _ transport => e.record s transport

-- A task that waits in `receive_frame` is resumed. Its connection was open when it began to wait.
def receive (P : Primitives) (e : Endpoint) (ad : Bytes) : Endpoint :=
  match (EncryptedTransport.resumeReceive P ad).run e.transport with
  | .ok content transport => { e with transport, received := e.received ++ [content] }
  | .error _ transport    => { e with transport }

-- A connection is closed by a task, by a `drain` that fails or by the event loop.
def shut (e : Endpoint) (closed writerClosing : Bool) : Endpoint :=
  let tcp := e.transport.tcp
  let tcp := { tcp with
    closed        := tcp.closed || closed
    writerClosing := tcp.writerClosing || writerClosing }
  { e with transport := { e.transport with tcp } }

def deliver (e : Endpoint) (bytes : Bytes) : Endpoint :=
  let tcp := e.transport.tcp
  { e with transport := { e.transport with tcp := { tcp with reader := tcp.reader ++ bytes } } }

end Endpoint

abbrev Session := Side → Endpoint

namespace Session

-- Mirrored keys, a different key for each direction, and nothing sent yet
structure Initial (s : Session) : Prop where
  mirrored (x : Side) :
    (s x).transport.channel.sessionKeys.recvKey = (s x.other).transport.channel.sessionKeys.sendKey
  distinct (x : Side) :
    (s x).transport.channel.sessionKeys.sendKey ≠ (s x).transport.channel.sessionKeys.recvKey
  sendSequence (x : Side) : (s x).transport.channel.sendSequence = 0
  expectedRecvSequence (x : Side) : (s x).transport.channel.expectedRecvSequence = 0
  written (x : Side) : (s x).transport.tcp.written = []
  sent (x : Side) : (s x).sent = []
  received (x : Side) : (s x).received = []

-- The encryptions that either side has made
def Encrypted (P : Primitives) (s : Session) (key nonce ad ciphertext : Bytes) : Prop :=
  ∃ y i c p, (s y).sent[i]? = some c ∧ c.out.inner P = .ok p ∧
    key = (s y).transport.channel.sessionKeys.sendKey ∧ nonce = SecureChannel.nonce i ∧ ad = c.ad ∧
    ciphertext = P.aead.encrypt key nonce ad p

-- The number and the ciphertext of the frame that is to be received
def presented (P : Primitives) (tcp : TCPConnection) : Option (Nat × Bytes) :=
  match (TCPConnection.awaitFrame P).run tcp with
  | .ok frame _ => (EncryptedTransport.unpackFrame frame).toOption
  | .error _ _  => none

-- The AEAD is ideal: of the frame that is to be received, only a ciphertext that was produced by an
-- encryption under the same key, nonce and associated data decrypts.
def Ideal (P : Primitives) (s : Session) (x : Side) (ad : Bytes) : Prop :=
  ∀ sequence ciphertext p, presented P (s x).transport.tcp = some (sequence, ciphertext) →
    P.aead.decrypt (s x).transport.channel.sessionKeys.recvKey (SecureChannel.nonce sequence) ad
      ciphertext = some p →
    s.Encrypted P (s x).transport.channel.sessionKeys.recvKey (SecureChannel.nonce sequence) ad ciphertext

inductive Step (P : Primitives) (s : Session) : Session → Prop
  | send {x : Side} {c : Sent} (wellFormed : c.out.WellFormed) :
    Step P s (Function.update s x ((s x).send P c))
  | shut {x : Side} {closed writerClosing : Bool} :
    Step P s (Function.update s x ((s x).shut closed writerClosing))
  -- The network hands over what it likes.
  | deliver {x : Side} {bytes : Bytes} : Step P s (Function.update s x ((s x).deliver bytes))
  | receive {x : Side} {ad : Bytes} (ideal : s.Ideal P x ad) :
    Step P s (Function.update s x ((s x).receive P ad))

abbrev Reachable (P : Primitives) (s₀ : Session) : Session → Prop :=
  Relation.ReflTransGen (Step P) s₀

end Session
