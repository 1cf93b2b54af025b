import Peerc.Handshake.Theorems.KeyAgreement
import Peerc.Transport.SecureSession
import Peerc.Transport.Theorems.Prefix

-- Two sessions that are the ends of one handshake

-- What a connection has written before does not change what is done with it.

namespace TCPConnection

variable {P : Primitives} {w : List Bytes}

-- The connection, with `w` written before all else
def writtenAfter (w : List Bytes) (tcp : TCPConnection) : TCPConnection :=
  { tcp with written := w ++ tcp.written }

theorem close_refines : EStateM.Refines (writtenAfter w) close close := by
  intro tcp
  by_cases h : tcp.closed
  case pos =>
    have h' : (writtenAfter w tcp).closed := h
    simp only [close, EStateM.run_bind, EStateM.run_get, if_pos h, if_pos h']
    rfl
  case neg =>
    have h' : ¬(writtenAfter w tcp).closed := h
    simp only [close, EStateM.run_bind, EStateM.run_get, if_neg h, if_neg h']
    rfl

theorem awaitFrame_refines : EStateM.Refines (writtenAfter w) (awaitFrame P) (awaitFrame P) := by
  intro tcp
  simp only [awaitFrame, EStateM.run, writtenAfter]
  cases Protocol.readAnyFrame Protocol.readExactly P tcp.reader
  case ok => rfl
  case error e _ => cases e <;> rfl

theorem awaitDrain_refines (drain : Drain) :
    EStateM.Refines (writtenAfter w) (awaitDrain drain) (awaitDrain drain) := by
  intro tcp
  cases drain <;> rfl

theorem writeBinaryFrame_refines (payload : Bytes) (drain : Drain) :
    EStateM.Refines (writtenAfter w) (writeBinaryFrame payload drain) (writeBinaryFrame payload drain) := by
  intro tcp
  by_cases h : tcp.isClosing
  case pos =>
    have h' : (writtenAfter w tcp).isClosing := h
    simp only [writeBinaryFrame, EStateM.run_bind, EStateM.run_get, if_pos h, if_pos h']
    rfl
  case neg =>
    have h' : ¬(writtenAfter w tcp).isClosing := h
    cases he : Protocol.encodeBinaryFrame payload
    case error e =>
      simp only [writeBinaryFrame, EStateM.run_bind, EStateM.run_get, if_neg h, if_neg h', he]
      rfl
    case ok frame =>
      have hw : (writtenAfter w tcp).write frame = writtenAfter w (tcp.write frame) := by
        simp only [write, writtenAfter, List.append_assoc]
      rw [writeBinaryFrame_run h he, writeBinaryFrame_run h' he, hw]
      exact awaitDrain_refines drain _

end TCPConnection

namespace EncryptedTransport

open EStateM

variable {P : Primitives} {w : List Bytes} {α : Type}

def writtenAfter (w : List Bytes) (t : EncryptedTransport) : EncryptedTransport :=
  { t with tcp := t.tcp.writtenAfter w }

theorem onTcp_refines {x : TcpM α} (h : Refines (TCPConnection.writtenAfter w) x x) :
    Refines (writtenAfter w) (onTcp x) (onTcp x) := by
  intro t
  have ht := h t.tcp
  simp only [onTcp_run, writtenAfter] at ht ⊢
  rw [ht]
  cases x.run t.tcp <;> rfl

theorem onChannel_refines (x : ChannelM α) : Refines (writtenAfter w) (onChannel x) (onChannel x) := by
  intro t
  simp only [onChannel_run, writtenAfter]
  cases x.run t.channel <;> rfl

theorem close_refines : Refines (writtenAfter w) close close :=
  onTcp_refines TCPConnection.close_refines

theorem encryptFrame_refines (innerPayload ad : Bytes) :
    Refines (writtenAfter w) (encryptFrame P innerPayload ad) (encryptFrame P innerPayload ad) := by
  refine .tryCatch (onChannel_refines _) fun e => ?_
  split
  case h_1 => exact close_refines.bind fun _ => .throw _
  case h_2 | h_3 | h_4 => exact .throw _

theorem sendEncrypted_refines (innerPayload ad : Bytes) (drain : Drain) :
    Refines (writtenAfter w) (sendEncrypted P innerPayload ad drain) (sendEncrypted P innerPayload ad drain) := by
  refine (encryptFrame_refines innerPayload ad).bind fun frame => .bind ?_ fun seqHeader =>
    onTcp_refines (TCPConnection.writeBinaryFrame_refines _ drain)
  simp only [packSequence]
  split
  · exact .pure _
  · exact .throw _

theorem ofExcept_refines (x : Except TransportFailure α) :
    Refines (writtenAfter w) (MonadExcept.ofExcept x : TransportM α) (MonadExcept.ofExcept x) := by
  cases x
  case ok a => exact .pure a
  case error e => exact .throw e

theorem resumeReceive_refines (ad : Bytes) :
    Refines (writtenAfter w) (resumeReceive P ad) (resumeReceive P ad) :=
  (onTcp_refines TCPConnection.awaitFrame_refines).bind fun _ =>
    (ofExcept_refines _).bind fun _ => (onChannel_refines _).bind fun _ => ofExcept_refines _

end EncryptedTransport

namespace Endpoint

variable {P : Primitives} {w : List Bytes} {e : Endpoint}

def writtenAfter (w : List Bytes) (e : Endpoint) : Endpoint :=
  { e with transport := e.transport.writtenAfter w }

theorem record_writtenAfter (s : Sent) (t : EncryptedTransport) :
    (e.writtenAfter w).record s (t.writtenAfter w) = (e.record s t).writtenAfter w := by
  by_cases h : t.channel.sendSequence = e.transport.channel.sendSequence
  case pos =>
    rw [show e.record s t = _ from if_pos h]
    exact if_pos h
  case neg =>
    rw [show e.record s t = _ from if_neg h]
    exact if_neg h

theorem send_writtenAfter (s : Sent) : (e.writtenAfter w).send P s = (e.send P s).writtenAfter w := by
  cases hi : s.out.inner P
  case error err =>
    simp only [send, Outgoing.send_run_error hi]
    exact record_writtenAfter s e.transport
  case ok p =>
    have hr := EncryptedTransport.sendEncrypted_refines (P := P) (w := w) p s.ad .flushed e.transport
    simp only [send, Outgoing.send_run hi, writtenAfter] at hr ⊢
    rw [hr]
    cases (EncryptedTransport.sendEncrypted P p s.ad .flushed).run e.transport <;>
      exact record_writtenAfter s _

theorem receive_writtenAfter (ad : Bytes) :
    (e.writtenAfter w).receive P ad = (e.receive P ad).writtenAfter w := by
  have hr := EncryptedTransport.resumeReceive_refines (P := P) (w := w) ad e.transport
  simp only [receive, writtenAfter] at hr ⊢
  rw [hr]
  cases (EncryptedTransport.resumeReceive P ad).run e.transport <;> rfl

end Endpoint

namespace Session

variable {P : Primitives} {w : Side → List Bytes} {s s' s₀ : Session} {x : Side} {ad : Bytes}

def writtenAfter (w : Side → List Bytes) (s : Session) : Session :=
  fun x => (s x).writtenAfter (w x)

theorem update_writtenAfter (e : Endpoint) :
    Function.update (s.writtenAfter w) x (e.writtenAfter (w x)) = writtenAfter w (Function.update s x e) := by
  funext y
  by_cases hy : y = x
  · subst hy
    simp [writtenAfter]
  · simp [writtenAfter, hy]

theorem Ideal.of_writtenAfter (h : (s.writtenAfter w).Ideal P x ad) : s.Ideal P x ad := by
  intro sequence ciphertext p hp hd
  refine h sequence ciphertext p ?_ hd
  simp only [presented, writtenAfter, Endpoint.writtenAfter, EncryptedTransport.writtenAfter] at hp ⊢
  rw [TCPConnection.awaitFrame_refines]
  cases hr : (TCPConnection.awaitFrame P).run (s x).transport.tcp <;> rw [hr] at hp
  · exact hp
  · cases hp

theorem Step.of_writtenAfter (h : Step P (s.writtenAfter w) s') :
    ∃ t, Step P s t ∧ s' = t.writtenAfter w := by
  cases h
  case send x c hw =>
    refine ⟨_, .send (x := x) (c := c) hw, ?_⟩
    rw [← update_writtenAfter, ← Endpoint.send_writtenAfter]
    rfl
  case shut x closed writerClosing =>
    refine ⟨_, @Step.shut P s x closed writerClosing, ?_⟩
    rw [← update_writtenAfter]
    rfl
  case deliver x bytes =>
    refine ⟨_, @Step.deliver P s x bytes, ?_⟩
    rw [← update_writtenAfter]
    rfl
  case receive x ad hi =>
    refine ⟨_, @Step.receive P s x ad hi.of_writtenAfter, ?_⟩
    rw [← update_writtenAfter, ← Endpoint.receive_writtenAfter]
    rfl

theorem Reachable.of_writtenAfter (h : Reachable P (s₀.writtenAfter w) s) :
    ∃ t, Reachable P s₀ t ∧ s = t.writtenAfter w := by
  induction h
  case refl => exact ⟨s₀, .refl, rfl⟩
  case tail hs hi =>
    obtain ⟨t, ht, rfl⟩ := hi
    obtain ⟨t', hs', rfl⟩ := hs.of_writtenAfter
    exact ⟨t', ht.tail hs', rfl⟩

end Session

namespace SecureSession

-- The two ends, with the initiator on the left
def between (a b : SecureSession) : Session
  | .left  => { transport := a.transport }
  | .right => { transport := b.transport }

-- Whatever has been written before the sessions begin
theorem between_eq (a b : SecureSession) : ∃ s w, between a b = Session.writtenAfter w s ∧
    (∀ x, (s x).transport.channel = (between a b x).transport.channel) ∧
    (∀ x, (s x).transport.tcp.written = []) ∧ (∀ x, (s x).sent = []) ∧ ∀ x, (s x).received = [] := by
  let clear (e : Endpoint) : Endpoint :=
    { e with transport := { e.transport with tcp := { e.transport.tcp with written := [] } } }
  refine ⟨fun x => clear (between a b x), fun x => (between a b x).transport.tcp.written, ?_, fun _ => rfl,
    fun _ => rfl, fun x => by cases x <;> rfl, fun x => by cases x <;> rfl⟩
  funext x
  simp only [Session.writtenAfter, Endpoint.writtenAfter, EncryptedTransport.writtenAfter,
    TCPConnection.writtenAfter, clear, List.append_nil]

theorem prefixed_of_mirrors {a b : SecureSession} {kA kB : DerivedKeys} {tcpA tcpB : TCPConnection}
    (ha : a.transport = ⟨tcpA, { sessionKeys := kA.toSessionKeys }⟩)
    (hb : b.transport = ⟨tcpB, { sessionKeys := kB.toSessionKeys }⟩) (hk : kA.Mirrors kB)
    (hA : kA.sendKey ≠ kA.recvKey) {P : Primitives} {s : Session}
    (h : Session.Reachable P (between a b) s) (x : Side) :
    (s x).received <+: (s x.other).sent.map (·.out.content) := by
  obtain ⟨s₀, w, he, hc, hw, hs, hr⟩ := between_eq a b
  rw [he] at h
  obtain ⟨t, ht, rfl⟩ := h.of_writtenAfter
  have hB : kB.sendKey ≠ kB.recvKey := fun h => hA (by rw [hk.sendKey, hk.recvKey, h])
  have hleft : (between a b .left).transport.channel = { sessionKeys := kA.toSessionKeys } := by
    simp only [between, ha]
  have hright : (between a b .right).transport.channel = { sessionKeys := kB.toSessionKeys } := by
    simp only [between, hb]
  have h₀ : s₀.Initial := by
    refine ⟨fun x => ?_, fun x => ?_, fun x => ?_, fun x => ?_, hw, hs, hr⟩ <;>
      cases x <;> simp only [Side.other, hc, hleft, hright]
    · exact hk.recvKey
    · exact hk.sendKey.symm
    · exact hA
    · exact hB
  exact (ht.invariant h₀).prefixed x

end SecureSession

namespace SecureSession

open Handshake

variable {P : Primitives} {K : Hkdf} {perform : HandshakeM Result} {isInitiator : Bool} {tcp : TCPConnection}
  {s s' : SessionSetup} {session : SecureSession}

-- What a session that is returned consists of
structure Established (K : Hkdf) (r : Result) (keys : DerivedKeys) (isInitiator : Bool) (tcp : TCPConnection)
    (session : SecureSession) : Prop where
  derived   : r.deriveSessionKeys K isInitiator = .ok keys
  handshake : session.handshake = r
  sessionId : session.sessionId = keys.sessionId
  transport : session.transport = { tcp, channel := { sessionKeys := keys.toSessionKeys } }

theorem negotiate_run (K : Hkdf) (perform : HandshakeM Result) (isInitiator : Bool) (tcp : TCPConnection)
    (s : SessionSetup) : (negotiate K perform isInitiator tcp).run s =
      match perform.run s.shared with
      | .error e shared => .error (.handshake e) ⟨shared, some tcp⟩
      | .ok r shared    =>
        match r.deriveSessionKeys K isInitiator with
        | .error e => .error (.kdf e) ⟨shared, some tcp⟩
        | .ok keys => .ok ⟨⟨tcp, { sessionKeys := keys.toSessionKeys }⟩, r, keys.sessionId, isInitiator⟩
            ⟨shared, some tcp⟩ := by
  simp only [negotiate, EStateM.run_bind, EStateM.run_modify, deriveKeys]
  simp only [onShared, EStateM.run]
  cases perform s.shared
  case error => rfl
  case ok r shared => cases hk : r.deriveSessionKeys K isInitiator <;> simp only [hk] <;> rfl

theorem establish_run {r : Result} {keys : DerivedKeys} {shared : Shared}
    (hr : perform.run s.shared = .ok r shared) (hk : r.deriveSessionKeys K isInitiator = .ok keys) :
    ∃ session s', (establish K perform isInitiator tcp).run s = .ok session s' := by
  have hn := negotiate_run K perform isInitiator tcp s
  simp only [hr, hk] at hn
  exact ⟨_, _, EStateM.run_tryCatch_ok hn⟩

theorem establish_eq_ok (h : (establish K perform isInitiator tcp).run s = .ok session s') :
    ∃ r keys shared, perform.run s.shared = .ok r shared ∧ Established K r keys isInitiator tcp session := by
  have hn := negotiate_run K perform isInitiator tcp s
  rw [establish] at h
  cases hr : perform.run s.shared <;> simp only [hr] at hn
  case error e shared =>
    rw [EStateM.run_tryCatch_error hn] at h
    cases h
  case ok r shared =>
    cases hk : r.deriveSessionKeys K isInitiator <;> simp only [hk] at hn
    case error e =>
      rw [EStateM.run_tryCatch_error hn] at h
      cases h
    case ok keys =>
      rw [EStateM.run_tryCatch_ok hn] at h
      cases h
      exact ⟨r, keys, shared, rfl, hk, rfl, rfl, rfl⟩

end SecureSession

namespace SecureSession

open Handshake

variable {P : Primitives} {K : Hkdf} {A B : Party} {envA envB : Env} {m₁ m₂ m₃ : Json} {rA rB : Result}
  {shA shB shA' shB' : Shared}

theorem initiateSecureSession_opened {env : SessionEnv} {host : Str} {port : Int} {timeout : Double}
    {tcp : TCPConnection} : initiateSecureSession P K host port timeout (.opened tcp) A env =
      establish K (performHandshakeInitiator P A env.toEnv) true (env.leave tcp) :=
  rfl

theorem peerDeviceId_of_initiator (h : (performHandshakeInitiator P A envA).run shA = .ok rA shA')
    (hm : awaitFrame P "handshake_response" envA.first = .ok m₂) :
    rA.peerDeviceId = (Fields.ofMessage m₂).deviceId := by
  rw [performHandshakeInitiator_eq, run_bind_eq_ok] at h
  obtain ⟨⟨st, frame⟩, _, -, h⟩ := h
  obtain ⟨m, pub, dec, store, sent, ha, hreply, hfin, -⟩ := Script.perform_eq_ok h
  obtain ⟨_, -, hread⟩ := Except.bind_eq_ok.mp ha.read
  cases hread.symm.trans hm
  exact (initiatorScript_result (Except.bind_eq_ok.mpr ⟨sent, hreply, hfin⟩)).deviceId

theorem peerDeviceId_of_responder (h : (performHandshakeResponder P B envB).run shB = .ok rB shB')
    (hm : awaitFrame P "handshake_init" envB.first = .ok m₁) :
    rB.peerDeviceId = (Fields.ofMessage m₁).deviceId := by
  rw [performHandshakeResponder_eq] at h
  obtain ⟨m, pub, dec, store, sent, ha, hreply, hfin, -⟩ := Script.perform_eq_ok h
  cases ha.read.symm.trans hm
  exact (responderScript_result (Except.bind_eq_ok.mpr ⟨sent, hreply, hfin⟩)).deviceId

-- Both sides have hashed the same.
theorem keysAgree_of_lines (hP : P.Lawful) (hA : (performHandshakeInitiator P A envA).run shA = .ok rA shA')
    (hB : (performHandshakeResponder P B envB).run shB = .ok rB shB') (hm : Matched P A B envA envB m₁ m₂ m₃)
    (hl : initiatorLines P A m₁ m₂ = responderLines P B m₁ m₂ m₃) : KeysAgree K rA rB := by
  obtain ⟨_, t, t', hA⟩ := performHandshakeInitiator_eq_ok hA
  obtain ⟨_, _, u, u', hB⟩ := performHandshakeResponder_eq_ok hB
  cases hA.read.symm.trans hm.readResponse
  cases hB.read.symm.trans hm.readInit
  cases hB.finish.symm.trans hm.readFinish
  refine hm.keysAgree hP hA hB ?_
  rw [(hm.initiator_hash hA).right, (hm.responder_hash hB).right, hl]

-- The keys of the two directions are told apart by their labels.
def LabelsSeparate (K : Hkdf) : Prop :=
  ∀ secret salt, K.derive secret salt Kdf.infoInitToResp Kdf.keyLen ≠
    K.derive secret salt Kdf.infoRespToInit Kdf.keyLen

theorem sendKey_ne_recvKey (labels : LabelsSeparate K) {r : Result} {isInitiator : Bool} {keys : DerivedKeys}
    (h : r.deriveSessionKeys K isInitiator = .ok keys) : keys.sendKey ≠ keys.recvKey := by
  obtain ⟨hs, hl⟩ := Kdf.lengths_of_ok h
  cases isInitiator
  case true =>
    cases h.symm.trans (Kdf.deriveSessionKeys_initiator hs hl)
    exact labels _ _
  case false =>
    cases h.symm.trans (Kdf.deriveSessionKeys_responder hs hl)
    exact (labels _ _).symm

end SecureSession

-- The two ends of a handshake whose messages have arrived as they were sent name each other, have the same
-- session id, and never deliver anything but what the other one has sent, in its order, whatever the network
-- does from then on.
open SecureSession Handshake in
theorem secure_sessions_in_step (P : Primitives) (hP : P.Lawful) (K : Hkdf) (labels : LabelsSeparate K)
    (A B : Party) (envA envB : SessionEnv) (host : Str) (port : Int) (timeout : Double) (opening : Opening)
    (tcp : TCPConnection) (setupA setupB setupA' setupB' : SessionSetup) (a b : SecureSession)
    (m₁ m₂ m₃ : Json)
    (hA : (initiateSecureSession P K host port timeout opening A envA).run setupA = .ok a setupA')
    (hB : (acceptSecureSession P K tcp B envB).run setupB = .ok b setupB')
    (hm : Matched P A B envA.toEnv envB.toEnv m₁ m₂ m₃)
    (hl : initiatorLines P A m₁ m₂ = responderLines P B m₁ m₂ m₃) :
    a.sessionId = b.sessionId ∧
    a.peerDeviceId.val = computeDeviceId P (B.identity.publicKeyBytes P) ∧
    b.peerDeviceId.val = computeDeviceId P (A.identity.publicKeyBytes P) ∧
    ∀ s, Session.Reachable P (between a b) s → ∀ x,
      (s x).received <+: (s x.other).sent.map (·.out.content) := by
  obtain ⟨tcpA, setup, -, hA⟩ := run_bind_eq_ok.mp hA
  obtain ⟨rA, kA, shA, hrA, heA⟩ := establish_eq_ok hA
  obtain ⟨rB, kB, shB, hrB, heB⟩ := establish_eq_ok hB
  obtain ⟨-, -, kA', kB', hkA, hkB, hk⟩ := keysAgree_of_lines (K := K) hP hrA hrB hm hl
  cases heA.derived.symm.trans hkA
  cases heB.derived.symm.trans hkB
  refine ⟨?_, ?_, ?_, fun s hs x =>
    prefixed_of_mirrors heA.transport heB.transport hk (sendKey_ne_recvKey labels hkA) hs x⟩
  · rw [heA.sessionId, heB.sessionId, hk.sessionId]
  · rw [peerDeviceId, heA.handshake, peerDeviceId_of_initiator hrA hm.readResponse, hm.response]
    rfl
  · rw [peerDeviceId, heB.handshake, peerDeviceId_of_responder hrB hm.readInit, hm.init]
    rfl

namespace Handshake.Loopback

theorem labelsSeparate : SecureSession.LabelsSeparate .transparent := by
  intro secret salt h
  have hl := congrArg (List.take 31) h
  simp only [Hkdf.transparent, List.take_take, List.append_assoc] at hl
  rw [List.take_append_of_le_length (by decide), List.take_append_of_le_length (by decide)] at hl
  exact absurd hl (by decide)

-- The streams are empty when the handshake has ended.
def sessionEnv (env : Env) : SessionEnv :=
  { env with reader := [], written := [], writerClosing := false }

end Handshake.Loopback

open SecureSession Handshake Handshake.Loopback in
theorem secure_sessions_in_step_alice_bob : ∃ a b envA envB setupA setupB,
    (initiateSecureSession prims .transparent (.ofString "bob") 5555 .zero (.opened {}) alice.party envA).run
      ⟨alice.shared, none⟩ = .ok a setupA ∧
    (acceptSecureSession prims .transparent {} bob.party envB).run ⟨bob.shared, none⟩ = .ok b setupB ∧
    a.sessionId = b.sessionId ∧
    ∀ s, Session.Reachable prims (between a b) s → ∀ x,
      (s x).received <+: (s x.other).sent.map (·.out.content) := by
  obtain ⟨f₁, f₂, f₃, h⟩ := exists_conversation prims_lawful alice_ready bob_ready
    (device_welcomes _ _ _) (device_welcomes _ _ _) alice_fits bob_fits
  obtain ⟨rA, rB, shA, shB, hrA, hrB, -, -⟩ := h.returns h.readFinish
    (expectMessage_finish (Conversation.signature_ne_nil h.lawful)) rfl
  have hm := h.matched h.readFinish
  have hl : initiatorLines prims alice.party (alice.initMessage prims)
      (bob.responseMessage prims (signatureOf prims alice bob)) =
        responderLines prims bob.party (alice.initMessage prims)
          (bob.responseMessage prims (signatureOf prims alice bob))
          (Protocol.makeHandshakeFinish (answerOf prims alice bob) alice.now.send) :=
    initiatorLines_eq_responderLines rfl rfl
  obtain ⟨-, -, kA, kB, hkA, hkB, -⟩ := keysAgree_of_lines (K := .transparent) prims_lawful hrA hrB hm hl
  let envA := sessionEnv (alice.env (.ofBytes f₂) .timeout)
  let envB := sessionEnv (bob.env (.ofBytes f₁) (.ofBytes f₃))
  have ha : ∃ a setup, (initiateSecureSession prims .transparent (.ofString "bob") 5555 .zero (.opened {})
      alice.party envA).run ⟨alice.shared, none⟩ = .ok a setup := by
    rw [initiateSecureSession_opened]
    exact establish_run hrA hkA
  have hb : ∃ b setup, (acceptSecureSession prims .transparent {} bob.party envB).run ⟨bob.shared, none⟩ =
      .ok b setup :=
    establish_run hrB hkB
  obtain ⟨a, setupA, ha⟩ := ha
  obtain ⟨b, setupB, hb⟩ := hb
  have hs := secure_sessions_in_step prims prims_lawful .transparent labelsSeparate _ _ envA envB _ _ _ _ _ _ _
    _ _ a b _ _ _ ha hb hm hl
  exact ⟨a, b, _, _, setupA, setupB, ha, hb, hs.left, hs.right.right.right⟩
