import Peerc.FileTransfer.Wire
import Peerc.Protocol.Builders

-- The messages that the program builds, and the peers that read them

theorem Double.not_isNaN_of_isFinite {x : Double} (h : x.isFinite) : ¬x.isNaN := by
  simp only [isFinite, isNaN, decide_eq_true_eq] at h ⊢
  exact fun hn => h hn.left

namespace Protocol

-- The factories of core/protocol/messages.py with their parameters, for texts that may hold surrogate pairs or not
inductive OwnMessage (τ : Type)
  | chat (messageId senderId senderName text : τ) (now : Clock)
  | chatAck (messageId : τ) (now : Clock)
  | fileOffer (transferId senderId senderName filename : τ) (size : Int) (checksum : τ) (now : Clock)
  | fileAccept (transferId : τ) (now : Clock)
  | fileReject (transferId : τ) (now : Clock)
  | fileChunk (transferId : τ) (chunkIndex : Int) (data : τ) (isLast : Bool)
  | fileDone (transferId checksum : τ)
  | fileCompleteAck (transferId : τ) (success : Bool) (detail : τ)
  | error (code message : τ)
  | hello (peerId senderName : τ) (tcpPort : Int) (now : Clock)
  | helloAck (peerId senderName : τ) (tcpPort : Int) (now : Clock)
  | handshakeInit (deviceId publicKey ephemeralKey nonce senderName : τ) (now : Clock)
  | handshakeResponse (deviceId publicKey ephemeralKey nonce senderName signature : τ) (now : Clock)
  | handshakeFinish (signature : τ) (now : Clock)

namespace OwnMessage

def toJson : OwnMessage Text → Json
  | chat messageId senderId senderName text now => makeChatMessage messageId senderId senderName text now.val
  | chatAck messageId now => makeChatAck (.str messageId) now.val
  | fileOffer transferId senderId senderName filename size checksum now =>
    makeFileOffer transferId senderId senderName filename size checksum now.val
  | fileAccept transferId now => makeFileAccept transferId now.val
  | fileReject transferId now => makeFileReject transferId now.val
  | fileChunk transferId chunkIndex data isLast => makeFileChunk transferId chunkIndex data isLast
  | fileDone transferId checksum => makeFileDone transferId checksum
  | fileCompleteAck transferId success detail => makeFileCompleteAck transferId success detail
  | error code message => makeError code message
  | hello peerId senderName tcpPort now => makeHello peerId senderName tcpPort now.val
  | helloAck peerId senderName tcpPort now => makeHelloAck peerId senderName tcpPort now.val
  | handshakeInit deviceId publicKey ephemeralKey nonce senderName now =>
    makeHandshakeInit deviceId publicKey ephemeralKey nonce senderName now.val
  | handshakeResponse deviceId publicKey ephemeralKey nonce senderName signature now =>
    makeHandshakeResponse deviceId publicKey ephemeralKey nonce senderName signature now.val
  | handshakeFinish signature now => makeHandshakeFinish signature now.val

-- `json.dumps` writes a surrogate pair and the character that it stands for alike, and the peer reads the character.
def joined : OwnMessage Str → OwnMessage Text
  | chat messageId senderId senderName text now =>
    chat (.join messageId) (.join senderId) (.join senderName) (.join text) now
  | chatAck messageId now => chatAck (.join messageId) now
  | fileOffer transferId senderId senderName filename size checksum now =>
    fileOffer (.join transferId) (.join senderId) (.join senderName) (.join filename) size (.join checksum) now
  | fileAccept transferId now => fileAccept (.join transferId) now
  | fileReject transferId now => fileReject (.join transferId) now
  | fileChunk transferId chunkIndex data isLast => fileChunk (.join transferId) chunkIndex (.join data) isLast
  | fileDone transferId checksum => fileDone (.join transferId) (.join checksum)
  | fileCompleteAck transferId success detail => fileCompleteAck (.join transferId) success (.join detail)
  | error code message => error (.join code) (.join message)
  | hello peerId senderName tcpPort now => hello (.join peerId) (.join senderName) tcpPort now
  | helloAck peerId senderName tcpPort now => helloAck (.join peerId) (.join senderName) tcpPort now
  | handshakeInit deviceId publicKey ephemeralKey nonce senderName now =>
    handshakeInit (.join deviceId) (.join publicKey) (.join ephemeralKey) (.join nonce) (.join senderName) now
  | handshakeResponse deviceId publicKey ephemeralKey nonce senderName signature now =>
    handshakeResponse (.join deviceId) (.join publicKey) (.join ephemeralKey) (.join nonce) (.join senderName)
      (.join signature) now
  | handshakeFinish signature now => handshakeFinish (.join signature) now

-- What a peer expects of the parameters
def Acceptable : OwnMessage Text → Prop
  | chat _ _ _ text _ => replacedSize text.val ≤ maxChatTextSize
  | fileOffer _ _ _ filename size checksum _ => filename.val ≠ [] ∧ 0 ≤ size ∧ checksum.val ≠ []
  | fileChunk _ chunkIndex _ _ => 0 ≤ chunkIndex
  | hello _ _ tcpPort _ | helloAck _ _ tcpPort _ => 0 < tcpPort ∧ tcpPort < 65536
  | handshakeInit deviceId publicKey ephemeralKey nonce _ _ =>
    ∀ t ∈ [deviceId, publicKey, ephemeralKey, nonce], t.val ≠ []
  | handshakeResponse deviceId publicKey ephemeralKey nonce _ signature _ =>
    ∀ t ∈ [deviceId, publicKey, ephemeralKey, nonce, signature], t.val ≠ []
  | handshakeFinish signature _ => signature.val ≠ []
  | chatAck .. | fileAccept .. | fileReject .. | fileDone .. | fileCompleteAck .. | error .. => True

end OwnMessage

-- The checks, by what they look at

variable {m : Json} {type field : String} {s : Text} {n : Int}

theorem check_ite_iff {p : Prop} [Decidable p] {e : Message} :
    (if p then throw e else return : Check) = .ok () ↔ ¬p := by
  split
  case isTrue h =>
    refine ⟨fun he => ?_, fun hn => absurd h hn⟩
    cases he
  case isFalse h => exact ⟨fun _ => h, fun _ => rfl⟩

theorem check_bind_iff {x : Check} {f : Unit → Check} :
    (x >>= f) = .ok () ↔ x = .ok () ∧ f () = .ok () := by
  rw [Except.bind_eq_ok]
  constructor
  · rintro ⟨⟨⟩, hx, hf⟩
    exact ⟨hx, hf⟩
  · exact fun h => ⟨(), h⟩

theorem check_for_iff (fields : List String) (check : String → Check) :
    (forIn fields PUnit.unit fun field _ => do
      check field
      pure (ForInStep.yield PUnit.unit) : Check) = .ok () ↔ ∀ field ∈ fields, check field = .ok () := by
  induction fields
  case nil => exact ⟨fun _ => List.forall_mem_nil _, fun _ => rfl⟩
  case cons field fields hi =>
    rw [List.forall_mem_cons, ← hi, List.forIn_cons]
    cases check field
    case error e =>
      refine ⟨fun h => ?_, fun h => ?_⟩
      · cases h
      · cases h.left
    case ok => exact (and_iff_right rfl).symm

theorem checkNonEmptyText_iff (h : m.text? field = some s) :
    checkNonEmptyText type field m = .ok () ↔ s.val ≠ [] := by
  simp only [checkNonEmptyText, h]
  exact check_ite_iff

theorem checkNatural_iff (h : (m.get? (.ofString field)).bind Json.int? = some n) :
    checkNatural type field m = .ok () ↔ 0 ≤ n := by
  simp only [checkNatural, h]
  exact check_ite_iff.trans Int.not_lt

theorem checkChat_iff (h : m.text? "text" = some s) :
    checkChat m = .ok () ↔ replacedSize s.val ≤ maxChatTextSize := by
  simp only [checkChat, h]
  exact check_ite_iff.trans Nat.not_lt

theorem checkHello_iff (h : m.get? (.ofString "tcp_port") = some (.int n)) :
    checkHello type m = .ok () ↔ 0 < n ∧ n < 65536 := by
  simp only [checkHello, h, Option.getD_some, Json.int?]
  split
  case isTrue hp => exact ⟨fun _ => hp, fun _ => rfl⟩
  case isFalse hp =>
    refine ⟨fun he => ?_, fun h => absurd h hp⟩
    cases he

theorem checkHandshake_iff {d k e c name : Text} (hd : m.text? "device_id" = some d)
    (hk : m.text? "public_key" = some k) (he : m.text? "ephemeral_key" = some e) (hc : m.text? "nonce" = some c)
    (hn : m.text? "sender_name" = some name) :
    checkHandshake type m = .ok () ↔ ∀ t ∈ [d, k, e, c], t.val ≠ [] := by
  rw [checkHandshake, check_bind_iff, check_for_iff]
  simp only [List.forall_mem_cons, checkNonEmptyText_iff hd, checkNonEmptyText_iff hk, checkNonEmptyText_iff he,
    checkNonEmptyText_iff hc, hn, List.not_mem_nil, false_imp_iff, implies_true, and_true]
  exact and_iff_left rfl

namespace OwnMessage

theorem validate_toJson (m : OwnMessage Text) : validateMessage m.toJson = .ok () ↔ m.Acceptable := by
  cases m
  case chatAck | fileAccept | fileReject | fileDone | fileCompleteAck | error => exact ⟨fun _ => trivial, fun _ => rfl⟩
  case chat messageId senderId senderName text now =>
    have ht : (makeChatMessage messageId senderId senderName text now.val).text? "text" = some text := rfl
    exact checkChat_iff ht
  case hello peerId senderName tcpPort now =>
    have hp : (makeHello peerId senderName tcpPort now.val).get? (.ofString "tcp_port") = some (.int tcpPort) := rfl
    exact checkHello_iff hp
  case helloAck peerId senderName tcpPort now =>
    have hp : (makeHelloAck peerId senderName tcpPort now.val).get? (.ofString "tcp_port") =
      some (.int tcpPort) := rfl
    exact checkHello_iff hp
  case handshakeFinish signature now =>
    have hs : (makeHandshakeFinish signature now.val).text? "signature" = some signature := rfl
    exact checkNonEmptyText_iff hs
  case fileOffer transferId senderId senderName filename size checksum now =>
    let m := makeFileOffer transferId senderId senderName filename size checksum now.val
    have hf : m.text? "filename" = some filename := rfl
    have hs : (m.get? (.ofString "size")).bind Json.int? = some size := rfl
    have hc : m.text? "checksum" = some checksum := rfl
    change checkFileOffer m = .ok () ↔ _
    rw [checkFileOffer, check_bind_iff, check_bind_iff, checkNonEmptyText_iff hf, checkNatural_iff hs,
      checkNonEmptyText_iff hc]
    rfl
  case fileChunk transferId chunkIndex data isLast =>
    have hi : ((makeFileChunk transferId chunkIndex data isLast).get? (.ofString "chunk_index")).bind Json.int? =
      some chunkIndex := rfl
    change checkFileChunk (makeFileChunk transferId chunkIndex data isLast) = .ok () ↔ _
    rw [checkFileChunk, check_bind_iff, checkNatural_iff hi]
    exact and_iff_left rfl
  case handshakeInit deviceId publicKey ephemeralKey nonce senderName now =>
    let m := makeHandshakeInit deviceId publicKey ephemeralKey nonce senderName now.val
    have hd : m.text? "device_id" = some deviceId := rfl
    have hk : m.text? "public_key" = some publicKey := rfl
    have he : m.text? "ephemeral_key" = some ephemeralKey := rfl
    have hc : m.text? "nonce" = some nonce := rfl
    have hn : m.text? "sender_name" = some senderName := rfl
    exact checkHandshake_iff hd hk he hc hn
  case handshakeResponse deviceId publicKey ephemeralKey nonce senderName signature now =>
    let m := makeHandshakeResponse deviceId publicKey ephemeralKey nonce senderName signature now.val
    have hd : m.text? "device_id" = some deviceId := rfl
    have hk : m.text? "public_key" = some publicKey := rfl
    have he : m.text? "ephemeral_key" = some ephemeralKey := rfl
    have hc : m.text? "nonce" = some nonce := rfl
    have hn : m.text? "sender_name" = some senderName := rfl
    have hs : m.text? "signature" = some signature := rfl
    refine (check_bind_iff.trans (and_congr (checkHandshake_iff hd hk he hc hn) (checkNonEmptyText_iff hs))).trans ?_
    simp [Acceptable, and_assoc]

theorem toJson_wellFormed (m : OwnMessage Text) : m.toJson.WellFormed := by
  have hn (now : Clock) : ¬now.val.isNaN := Double.not_isNaN_of_isFinite now.property
  cases m <;> refine ⟨by simp only [List.map_cons, List.map_nil]; decide, ?_⟩ <;>
    simp [Json.WellFormedFields, Json.WellFormed, hn]

end OwnMessage

-- Reading what was written

section

variable {P : Primitives} {b rest rest' : Bytes} {p : Packet}

theorem sendable_json {fields : List (Text × Json)} (hw : (Json.obj fields).WellFormed)
    (h : AnyFrame.encode P (.json (.obj fields)) = .ok b) : AnyFrame.Sendable P (.json (.obj fields)) := by
  simp only [AnyFrame.encode, encodeFrame] at h
  split at h
  case h_1 => cases h
  case h_2 payload he =>
    split at h <;> cases h
    case isFalse hl =>
      exact ⟨hw, payload, he, List.length_pos_iff.mpr (Handshake.encodeJson_obj_ne_nil he), Nat.le_of_not_lt hl⟩

-- What is dispatched when a frame has been read
theorem nextPacket_json {message : Json}
    (h : (readAnyFrame readExactly P).run b = .ok (.json message) rest)
    (hr : (nextPacket readExactly P).run b = .ok p rest') : rest' = rest ∧ p = .json message := by
  simp only [nextPacket, EStateM.run_bind, h] at hr
  split at hr <;> cases hr
  exact ⟨rfl, rfl⟩

theorem nextPacket_binary {payload : Bytes}
    (h : (readAnyFrame readExactly P).run b = .ok (.binary payload) rest)
    (hr : (nextPacket readExactly P).run b = .ok p rest') :
    rest' = rest ∧ p.type? = some (.ofString "file_data") := by
  simp only [nextPacket, EStateM.run_bind, h] at hr
  split at hr <;> cases hr
  exact ⟨rfl, rfl⟩

end

theorem OwnMessage.sendable {P : Primitives} {b : Bytes} (m : OwnMessage Text)
    (h : AnyFrame.encode P (.json m.toJson) = .ok b) : AnyFrame.Sendable P (.json m.toJson) := by
  have hw := m.toJson_wellFormed
  cases m <;> exact sendable_json hw h

end Protocol

-- A peer passes on what was written if the parameters are as it expects them, and ends the connection otherwise.
open Protocol in
theorem own_messages_accepted_iff (P : Primitives) (m : OwnMessage Str) (frame rest : Bytes)
    (h : encodeFrame P m.joined.toJson = .ok frame) :
    (m.joined.Acceptable → (nextPacket readExactly P).run (frame ++ rest) = .ok (.json m.joined.toJson) rest) ∧
    (¬m.joined.Acceptable → ∃ e, (nextPacket readExactly P).run (frame ++ rest) =
      .error (.frame (.protocolError e)) rest) := by
  obtain ⟨b, hb, hread⟩ := (m.joined.sendable h).encode
  cases h.symm.trans hb
  have hv := m.joined.validate_toJson
  simp only [nextPacket, EStateM.run_bind, hread rest]
  cases he : validateMessage m.joined.toJson
  case ok => exact ⟨fun _ => rfl, fun hn => absurd (hv.mp he) hn⟩
  case error e =>
    refine ⟨fun ha => ?_, fun _ => ⟨e, rfl⟩⟩
    cases (hv.mpr ha).symm.trans he

namespace Protocol.OwnMessage

-- A greeting with a port that is none

def now : Clock := ⟨.zero, Double.isFinite_zero⟩

def portless : OwnMessage Str :=
  .hello (.ofString "ab") (.ofString "ann") 0 now

end Protocol.OwnMessage

open Protocol OwnMessage in
theorem own_messages_accepted_iff_portless :
    ∃ frame, encodeFrame .transparent portless.joined.toJson = .ok frame ∧
      ∃ e, (nextPacket readExactly .transparent).run (frame ++ []) = .error (.frame (.protocolError e)) [] := by
  have h : (encodeFrame .transparent portless.joined.toJson).toBool := by
    decide +kernel
  cases hf : encodeFrame .transparent portless.joined.toJson <;> rw [hf] at h
  case error => cases h
  case ok frame =>
    have hs := own_messages_accepted_iff .transparent portless frame [] hf
    refine ⟨frame, rfl, hs.right ?_⟩
    rintro ⟨hp, -⟩
    exact absurd hp (by decide)
