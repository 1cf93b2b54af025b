import Peerc.Transport.Basic

-- What sending and receiving do to a transport

namespace SecureChannel

variable (P : Primitives) {c : SecureChannel} (plaintext ad : Bytes)

def nonce (sequence : Nat) : Bytes :=
  Bytes.ofNatBE nonceLen sequence

theorem le_maxSequence {n : Nat} (h : n < 2 ^ 64) : n ≤ maxSequence :=
  Nat.le_of_lt (Nat.lt_of_lt_of_le h (by decide))

theorem nonce_inj {m n : Nat} (hm : m ≤ maxSequence) (hn : n ≤ maxSequence) (h : nonce m = nonce n) :
    m = n :=
  Bytes.ofNatBE_inj (Nat.lt_succ_of_le hm) (Nat.lt_succ_of_le hn) h

-- The ciphertext that is sent as number `sequence`
def sealed (key : Bytes) (sequence : Nat) : Bytes :=
  P.aead.encrypt key (nonce sequence) ad plaintext

def Encryptable (plaintext ad : Bytes) : Prop :=
  plaintext.length ≤ maxDataLen ∧ ad.length ≤ maxDataLen

variable {plaintext ad}

theorem Encryptable.not_iff :
    ¬Encryptable plaintext ad ↔ plaintext.length > maxDataLen ∨ ad.length > maxDataLen := by
  rw [Encryptable, not_and_or, Nat.not_le, Nat.not_le]

variable (plaintext ad)

theorem encrypt_run_exhausted (h : maxSequence < c.sendSequence) :
    ∃ msg, (encrypt P plaintext ad).run c = .error (.encryption (.sequenceExhausted msg)) c := by
  have h' : c.sendSequence > maxSequence := h
  simp only [encrypt, constructNonce, EStateM.run_bind, EStateM.run_get, if_pos h']
  exact ⟨_, rfl⟩

variable {plaintext ad}

theorem encrypt_run_overflow (h : c.sendSequence ≤ maxSequence) (hl : ¬Encryptable plaintext ad) :
    (encrypt P plaintext ad).run c = .error .overflow c := by
  simp only [encrypt, constructNonce, sendCipherEncrypt, EStateM.run_bind, EStateM.run_get,
    if_neg (Nat.not_lt.mpr h), if_pos (Encryptable.not_iff.mp hl)]
  rfl

theorem encrypt_run (h : c.sendSequence ≤ maxSequence) (hl : Encryptable plaintext ad) :
    (encrypt P plaintext ad).run c =
      .ok ⟨c.sendSequence, sealed P plaintext ad c.sessionKeys.sendKey c.sendSequence⟩
        { c with sendSequence := c.sendSequence + 1 } := by
  simp only [encrypt, constructNonce, sendCipherEncrypt, EStateM.run_bind, EStateM.run_get,
    if_neg (Nat.not_lt.mpr h), if_neg (fun h' => Encryptable.not_iff.mpr h' hl)]
  rfl

variable {sequence : Nat} {ciphertext : Bytes}

theorem decrypt_run (hs : sequence = c.expectedRecvSequence) (hn : sequence ≤ maxSequence)
    (h : P.aead.decrypt c.sessionKeys.recvKey (nonce sequence) ad ciphertext = some plaintext) :
    (decrypt P sequence ciphertext ad).run c =
      .ok plaintext { c with expectedRecvSequence := c.expectedRecvSequence + 1 } := by
  rw [nonce] at h
  simp only [decrypt, constructNonce, EStateM.run_bind, EStateM.run_get, if_neg (not_not.mpr hs),
    if_neg (Nat.not_lt.mpr hn), EStateM.run_pure, h]
  rfl

-- Nothing else is decrypted.
theorem decrypt_cases (P : Primitives) (c : SecureChannel) (sequence : Nat) (ciphertext ad : Bytes) :
    (∃ e, (decrypt P sequence ciphertext ad).run c = .error e c) ∨
      sequence = c.expectedRecvSequence ∧ sequence ≤ maxSequence ∧
        ∃ p, P.aead.decrypt c.sessionKeys.recvKey (nonce sequence) ad ciphertext = some p := by
  by_cases hs : sequence = c.expectedRecvSequence
  case neg =>
    left
    simp only [decrypt, EStateM.run_bind, EStateM.run_get, if_pos hs]
    exact ⟨_, rfl⟩
  by_cases hn : sequence > maxSequence
  case pos =>
    left
    simp only [decrypt, constructNonce, EStateM.run_bind, EStateM.run_get, if_neg (not_not.mpr hs),
      if_pos hn]
    exact ⟨_, rfl⟩
  cases h : P.aead.decrypt c.sessionKeys.recvKey (nonce sequence) ad ciphertext
  case none =>
    left
    rw [nonce] at h
    simp only [decrypt, constructNonce, EStateM.run_bind, EStateM.run_get, if_neg (not_not.mpr hs),
      if_neg hn, EStateM.run_pure, h]
    exact ⟨_, rfl⟩
  case some p => exact .inr ⟨hs, Nat.le_of_not_lt hn, p, rfl⟩

end SecureChannel

namespace TCPConnection

variable {tcp : TCPConnection} {payload frame : Bytes} (drain : Drain)

-- The connection after a call of `writer.write`
def write (tcp : TCPConnection) (frame : Bytes) : TCPConnection :=
  { tcp with written := tcp.written ++ [frame] }

theorem close_run (tcp : TCPConnection) :
    ∃ tcp', close.run tcp = .ok () tcp' ∧ tcp'.isClosing ∧ tcp'.written = tcp.written ∧
      tcp'.reader = tcp.reader := by
  by_cases h : tcp.closed
  case pos =>
    refine ⟨tcp, ?_, by simp [isClosing, h], rfl, rfl⟩
    simp only [close, EStateM.run_bind, EStateM.run_get, if_pos h]
    rfl
  case neg =>
    refine ⟨{ tcp with closed := true, writerClosing := true }, ?_, rfl, rfl, rfl⟩
    simp only [close, EStateM.run_bind, EStateM.run_get, if_neg h]
    rfl

theorem writeBinaryFrame_run_closing (payload : Bytes) (h : tcp.isClosing) :
    ∃ msg, (writeBinaryFrame payload drain).run tcp = .error (.connectionClosed msg) tcp := by
  simp only [writeBinaryFrame, EStateM.run_bind, EStateM.run_get, if_pos h]
  exact ⟨_, rfl⟩

theorem writeBinaryFrame_run_oversized (h : ¬tcp.isClosing)
    (hl : Protocol.maxMessageSize < payload.length) :
    ∃ msg, (writeBinaryFrame payload drain).run tcp = .error (.transportError msg) tcp := by
  simp only [writeBinaryFrame, EStateM.run_bind, EStateM.run_get, if_neg h,
    Protocol.encodeBinaryFrame, if_pos hl]
  exact ⟨_, rfl⟩

variable {drain}

theorem writeBinaryFrame_run (h : ¬tcp.isClosing) (he : Protocol.encodeBinaryFrame payload = .ok frame) :
    (writeBinaryFrame payload drain).run tcp = (awaitDrain drain).run (tcp.write frame) := by
  simp only [writeBinaryFrame, EStateM.run_bind, EStateM.run_get, if_neg h, he]
  rfl

variable {P : Primitives} {tcp' : TCPConnection}

theorem awaitFrame_ok {f : Protocol.AnyFrame} (h : (awaitFrame P).run tcp = .ok f tcp') :
    tcp'.written = tcp.written ∧ (tcp'.isClosing ↔ tcp.isClosing) := by
  simp only [awaitFrame, EStateM.run] at h
  split at h <;> cases h
  exact ⟨rfl, .rfl⟩

theorem awaitFrame_error {e : TransportFailure} (h : (awaitFrame P).run tcp = .error e tcp') :
    tcp'.written = tcp.written ∧ (tcp.isClosing → tcp'.isClosing) := by
  simp only [awaitFrame, EStateM.run] at h
  split at h <;> cases h
  case h_2 => exact ⟨rfl, fun _ => rfl⟩
  case h_3 => exact ⟨rfl, id⟩

theorem awaitFrame_encodeBinaryFrame {rest : Bytes} (hp : payload ≠ [])
    (he : Protocol.encodeBinaryFrame payload = .ok frame) (hr : tcp.reader = frame ++ rest) :
    (awaitFrame P).run tcp = .ok (.binary payload) { tcp with reader := rest } := by
  simp only [awaitFrame, EStateM.run] at *
  rw [hr]
  have := Protocol.readAnyFrame_encodeBinaryFrame P hp he rest
  simp only [EStateM.run] at this
  rw [this]

end TCPConnection

namespace EncryptedTransport

open SecureChannel (maxSequence maxDataLen sealed Encryptable)

variable {P : Primitives} {t : EncryptedTransport} {innerPayload ad : Bytes} {drain : Drain}

def wirePayload (P : Primitives) (key : Bytes) (sequence : Nat) (innerPayload ad : Bytes) : Bytes :=
  Bytes.ofNatBE sequenceSize sequence ++ sealed P innerPayload ad key sequence

@[simp]
theorem wirePayload_length (P : Primitives) (key : Bytes) (sequence : Nat) (innerPayload ad : Bytes) :
    (wirePayload P key sequence innerPayload ad).length = minEncryptedPayloadLen + innerPayload.length := by
  simp only [wirePayload, sealed, List.length_append, Bytes.ofNatBE_length, P.aead.encrypt_length,
    minEncryptedPayloadLen]
  omega

-- The frame that is sent as number `sequence`
def wireFrame (P : Primitives) (key : Bytes) (sequence : Nat) (innerPayload ad : Bytes) : Bytes :=
  Bytes.ofNatBE 4 (minEncryptedPayloadLen + innerPayload.length + Protocol.binaryFlag) ++
    wirePayload P key sequence innerPayload ad

-- The number in the header of a frame, after the length
def frameSequence (frame : Bytes) : Nat :=
  Bytes.toNatBE ((frame.drop 4).take sequenceSize)

theorem frameSequence_wireFrame {key : Bytes} {sequence : Nat} (h : sequence < 2 ^ 64) :
    frameSequence (wireFrame P key sequence innerPayload ad) = sequence := by
  have hm : sequence % 256 ^ sequenceSize = sequence := Nat.mod_eq_of_lt h
  rw [frameSequence, wireFrame, List.drop_left' (Bytes.ofNatBE_length _ _), wirePayload,
    List.take_left' (Bytes.ofNatBE_length _ _), Bytes.toNatBE_ofNatBE, hm]

theorem encodeBinaryFrame_wirePayload {key : Bytes} {sequence : Nat}
    (h : minEncryptedPayloadLen + innerPayload.length ≤ Protocol.maxMessageSize) :
    Protocol.encodeBinaryFrame (wirePayload P key sequence innerPayload ad) =
      .ok (wireFrame P key sequence innerPayload ad) := by
  rw [Protocol.encodeBinaryFrame, wirePayload_length, if_neg (Nat.not_lt.mpr h), wireFrame]

-- The transport after the encryption of a frame
def advance (t : EncryptedTransport) : EncryptedTransport :=
  { t with channel := { t.channel with sendSequence := t.channel.sendSequence + 1 } }

def write (t : EncryptedTransport) (frame : Bytes) : EncryptedTransport :=
  { t with tcp := t.tcp.write frame }

-- The next frame that the transport sends
def nextFrame (P : Primitives) (t : EncryptedTransport) (innerPayload ad : Bytes) : Bytes :=
  wireFrame P t.channel.sessionKeys.sendKey t.channel.sendSequence innerPayload ad

-- What `_send_encrypted` does, by what stops it
inductive SendEffect (P : Primitives) (t : EncryptedTransport) (innerPayload ad : Bytes) (drain : Drain) :
    EStateM.Result TransportFailure EncryptedTransport Unit → Prop
  | exhausted {msg tcp} (sequence : maxSequence < t.channel.sendSequence) (closing : tcp.isClosing)
    (written : tcp.written = t.tcp.written) (reader : tcp.reader = t.tcp.reader) :
    SendEffect P t innerPayload ad drain (.error (.transportError msg) { t with tcp })
  | overflow (sequence : t.channel.sendSequence ≤ maxSequence) (long : ¬Encryptable innerPayload ad) :
    SendEffect P t innerPayload ad drain (.error (.channel .overflow) t)
  | unpackable (sequence : t.channel.sendSequence ≤ maxSequence) (short : Encryptable innerPayload ad)
    (wide : 2 ^ 64 ≤ t.channel.sendSequence) :
    SendEffect P t innerPayload ad drain (.error .structError t.advance)
  | closing {msg} (short : Encryptable innerPayload ad) (narrow : t.channel.sendSequence < 2 ^ 64)
    (closing : t.isClosing) :
    SendEffect P t innerPayload ad drain (.error (.connectionClosed msg) t.advance)
  | oversized {msg} (short : Encryptable innerPayload ad) (narrow : t.channel.sendSequence < 2 ^ 64)
    (isOpen : ¬t.isClosing)
    (size : Protocol.maxMessageSize < minEncryptedPayloadLen + innerPayload.length) :
    SendEffect P t innerPayload ad drain (.error (.transportError msg) t.advance)
  | flushed (short : Encryptable innerPayload ad) (narrow : t.channel.sendSequence < 2 ^ 64)
    (isOpen : ¬t.isClosing)
    (size : minEncryptedPayloadLen + innerPayload.length ≤ Protocol.maxMessageSize)
    (flushed : drain = .flushed) :
    SendEffect P t innerPayload ad drain (.ok () (t.advance.write (t.nextFrame P innerPayload ad)))
  | lost {msg} (short : Encryptable innerPayload ad) (narrow : t.channel.sendSequence < 2 ^ 64)
    (isOpen : ¬t.isClosing)
    (size : minEncryptedPayloadLen + innerPayload.length ≤ Protocol.maxMessageSize)
    (lost : drain = .lost) :
    SendEffect P t innerPayload ad drain
      (.error (.connectionClosed msg)
        { t.advance with tcp := { (t.write (t.nextFrame P innerPayload ad)).tcp with closed := true } })

theorem onTcp_run {α} (x : TcpM α) (t : EncryptedTransport) :
    (onTcp x).run t =
      match x.run t.tcp with
      | .ok a tcp    => .ok a { t with tcp }
      | .error e tcp => .error e { t with tcp } :=
  rfl

theorem onChannel_run {α} (x : ChannelM α) (t : EncryptedTransport) :
    (onChannel x).run t =
      match x.run t.channel with
      | .ok a channel    => .ok a { t with channel }
      | .error e channel => .error (.channel e) { t with channel } :=
  rfl

-- A handler finds the state as the exception has left it.
theorem tryCatch_run {α} (x : TransportM α) (handle : TransportFailure → TransportM α)
    (t : EncryptedTransport) :
    (tryCatch x handle).run t =
      match x.run t with
      | .ok a t'    => .ok a t'
      | .error e t' => (handle e).run t' := by
  simp only [EStateM.run, tryCatch, tryCatchThe, MonadExceptOf.tryCatch, EStateM.tryCatch]
  cases x t <;> rfl

-- The three ways in which an encryption ends

theorem encryptFrame_run_exhausted (P : Primitives) (innerPayload ad : Bytes)
    (h : maxSequence < t.channel.sendSequence) :
    ∃ msg tcp, (encryptFrame P innerPayload ad).run t = .error (.transportError msg) { t with tcp } ∧
      tcp.isClosing ∧ tcp.written = t.tcp.written ∧ tcp.reader = t.tcp.reader := by
  obtain ⟨msg, he⟩ := SecureChannel.encrypt_run_exhausted P innerPayload ad h
  obtain ⟨tcp, hc, hs⟩ := t.tcp.close_run
  refine ⟨.text "Session sequence exhausted: " :: msg, tcp, ?_, hs⟩
  simp only [encryptFrame, tryCatch_run, onChannel_run, he, EStateM.run_bind, close, onTcp_run, hc]
  rfl

theorem encryptFrame_run_overflow (h : t.channel.sendSequence ≤ maxSequence)
    (hl : ¬Encryptable innerPayload ad) :
    (encryptFrame P innerPayload ad).run t = .error (.channel .overflow) t := by
  simp only [encryptFrame, tryCatch_run, onChannel_run, SecureChannel.encrypt_run_overflow P h hl]
  rfl

theorem encryptFrame_run (h : t.channel.sendSequence ≤ maxSequence) (hl : Encryptable innerPayload ad) :
    (encryptFrame P innerPayload ad).run t =
      .ok ⟨t.channel.sendSequence,
        sealed P innerPayload ad t.channel.sessionKeys.sendKey t.channel.sendSequence⟩ t.advance := by
  simp only [encryptFrame, tryCatch_run, onChannel_run, SecureChannel.encrypt_run P h hl]
  rfl

-- An encryption that succeeds leaves the rest to the connection.
theorem sendEncrypted_run (hs : t.channel.sendSequence < 2 ^ 64) (hl : Encryptable innerPayload ad) :
    (sendEncrypted P innerPayload ad drain).run t =
      (onTcp (TCPConnection.writeBinaryFrame
        (wirePayload P t.channel.sessionKeys.sendKey t.channel.sendSequence innerPayload ad)
        drain)).run t.advance := by
  have hs' := SecureChannel.le_maxSequence hs
  simp only [sendEncrypted, EStateM.run_bind, encryptFrame_run hs' hl, packSequence, if_pos hs]
  rfl

theorem sendEncrypted_effect (P : Primitives) (t : EncryptedTransport) (innerPayload ad : Bytes)
    (drain : Drain) :
    SendEffect P t innerPayload ad drain ((sendEncrypted P innerPayload ad drain).run t) := by
  by_cases hs : maxSequence < t.channel.sendSequence
  case pos =>
    obtain ⟨msg, tcp, he, hc, hw, hr⟩ := encryptFrame_run_exhausted P innerPayload ad hs
    simp only [sendEncrypted, EStateM.run_bind, he]
    exact .exhausted hs hc hw hr
  have hs := Nat.le_of_not_lt hs
  by_cases hl : Encryptable innerPayload ad
  case neg =>
    simp only [sendEncrypted, EStateM.run_bind, encryptFrame_run_overflow hs hl]
    exact .overflow hs hl
  by_cases hn : t.channel.sendSequence < 2 ^ 64
  case neg =>
    simp only [sendEncrypted, EStateM.run_bind, encryptFrame_run hs hl, packSequence, if_neg hn]
    exact .unpackable hs hl (Nat.le_of_not_lt hn)
  rw [sendEncrypted_run hn hl, onTcp_run]
  by_cases hc : t.advance.tcp.isClosing
  case pos =>
    obtain ⟨msg, he⟩ := TCPConnection.writeBinaryFrame_run_closing drain
      (wirePayload P t.channel.sessionKeys.sendKey t.channel.sendSequence innerPayload ad) hc
    rw [he]
    exact .closing hl hn hc
  by_cases hsize : Protocol.maxMessageSize < minEncryptedPayloadLen + innerPayload.length
  case pos =>
    have hsize' := hsize
    rw [← wirePayload_length P t.channel.sessionKeys.sendKey t.channel.sendSequence _ ad] at hsize'
    obtain ⟨msg, he⟩ := TCPConnection.writeBinaryFrame_run_oversized drain hc hsize'
    rw [he]
    exact .oversized hl hn hc hsize
  have hsize := Nat.le_of_not_lt hsize
  rw [TCPConnection.writeBinaryFrame_run hc (encodeBinaryFrame_wirePayload hsize)]
  cases drain
  case flushed => exact .flushed hl hn hc hsize rfl
  case lost => exact .lost hl hn hc hsize rfl

-- `receive_frame` from where it waits for a frame
def resumeReceive (P : Primitives) (ad : Bytes) : TransportM Content := do
  openFrame P ad (← onTcp (TCPConnection.awaitFrame P))

theorem receiveFrame_run (h : ¬t.isClosing) :
    (receiveFrame P ad).run t = (resumeReceive P ad).run t := by
  have h' : ¬t.tcp.isClosing := h
  simp only [receiveFrame, resumeReceive, EStateM.run_bind, onTcp_run, TCPConnection.readFrame,
    EStateM.run_get, if_neg h']

theorem receiveFrame_run_closing (P : Primitives) (ad : Bytes) (h : t.isClosing) :
    ∃ e, (receiveFrame P ad).run t = .error e t := by
  have h' : t.tcp.isClosing := h
  simp only [receiveFrame, EStateM.run_bind, onTcp_run, TCPConnection.readFrame, EStateM.run_get,
    if_pos h']
  exact ⟨_, rfl⟩

-- The transport after it has decrypted a frame
def expectNext (t : EncryptedTransport) : EncryptedTransport :=
  { t with channel := { t.channel with expectedRecvSequence := t.channel.expectedRecvSequence + 1 } }

-- What `receive_frame` does: all it can decrypt is a frame with the number that it expects.
inductive ReceiveEffect (P : Primitives) (t : EncryptedTransport) (ad : Bytes) :
    EStateM.Result TransportFailure EncryptedTransport Content → Prop
  | rejected {e t'} (channel : t'.channel = t.channel) (written : t'.tcp.written = t.tcp.written)
    (closing : t.isClosing → t'.isClosing) : ReceiveEffect P t ad (.error e t')
  | opened {tcp frame ciphertext p}
    (read : (TCPConnection.awaitFrame P).run t.tcp = .ok frame tcp)
    (unpack : unpackFrame frame = .ok (t.channel.expectedRecvSequence, ciphertext))
    (range : t.channel.expectedRecvSequence ≤ maxSequence)
    (decrypt : P.aead.decrypt t.channel.sessionKeys.recvKey
      (SecureChannel.nonce t.channel.expectedRecvSequence) ad ciphertext = some p) :
    ReceiveEffect P t ad ((MonadExcept.ofExcept (decodePlaintext P p) : TransportM Content).run
      { t with tcp }.expectNext)

theorem openFrame_error {frame : Protocol.AnyFrame} {e : TransportFailure}
    (h : unpackFrame frame = .error e) : (openFrame P ad frame).run t = .error e t := by
  simp only [openFrame, h]
  rfl

theorem openFrame_ok {frame : Protocol.AnyFrame} {sequence : Nat} {ciphertext : Bytes}
    (h : unpackFrame frame = .ok (sequence, ciphertext)) :
    openFrame P ad frame = onChannel (SecureChannel.decrypt P sequence ciphertext ad) >>=
      fun plaintext => MonadExcept.ofExcept (decodePlaintext P plaintext) := by
  simp only [openFrame, h]
  rfl

theorem resumeReceive_effect (P : Primitives) (t : EncryptedTransport) (ad : Bytes) :
    ReceiveEffect P t ad ((resumeReceive P ad).run t) := by
  simp only [resumeReceive, EStateM.run_bind, onTcp_run]
  cases hr : (TCPConnection.awaitFrame P).run t.tcp
  case error e tcp =>
    have ⟨hw, hc⟩ := TCPConnection.awaitFrame_error hr
    exact .rejected rfl hw hc
  case ok frame tcp =>
    have ⟨hw, hc⟩ := TCPConnection.awaitFrame_ok hr
    cases hu : unpackFrame frame
    case error e =>
      simp only [openFrame_error hu]
      exact .rejected rfl hw hc.mpr
    case ok wire =>
      obtain ⟨sequence, ciphertext⟩ := wire
      simp only [openFrame_ok hu, EStateM.run_bind, onChannel_run]
      obtain ⟨e, he⟩ | ⟨hs, hn, p, hp⟩ := SecureChannel.decrypt_cases P t.channel sequence ciphertext ad
      case inl =>
        simp only [he]
        exact .rejected rfl hw hc.mpr
      case inr =>
        simp only [SecureChannel.decrypt_run P hs hn hp]
        subst hs
        exact .opened hr hu hn hp

-- The two parts of the payload that was sent as number `sequence`
theorem unpackFrame_wirePayload {key : Bytes} {sequence : Nat} (h : sequence < 2 ^ 64) :
    unpackFrame (.binary (wirePayload P key sequence innerPayload ad)) =
      .ok (sequence, sealed P innerPayload ad key sequence) := by
  have hl : ¬(wirePayload P key sequence innerPayload ad).length < minEncryptedPayloadLen := by
    rw [wirePayload_length]
    omega
  have hs := Bytes.ofNatBE_length sequenceSize sequence
  have hm : sequence % 256 ^ sequenceSize = sequence := Nat.mod_eq_of_lt h
  rw [unpackFrame, if_neg hl, wirePayload, List.take_left' hs, List.drop_left' hs,
    Bytes.toNatBE_ofNatBE, hm]

-- The frame that a peer expects is read and decrypted, whatever follows it.
theorem resumeReceive_wireFrame {sequence : Nat} {rest : Bytes}
    (hr : t.tcp.reader = wireFrame P t.channel.sessionKeys.recvKey sequence innerPayload ad ++ rest)
    (hs : sequence = t.channel.expectedRecvSequence) (hn : sequence < 2 ^ 64)
    (hsize : minEncryptedPayloadLen + innerPayload.length ≤ Protocol.maxMessageSize) :
    (resumeReceive P ad).run t =
      (MonadExcept.ofExcept (decodePlaintext P innerPayload) : TransportM Content).run
        { t with tcp := { t.tcp with reader := rest } }.expectNext := by
  have hp : wirePayload P t.channel.sessionKeys.recvKey sequence innerPayload ad ≠ [] := by
    rw [← List.length_pos_iff, wirePayload_length]
    exact Nat.add_pos_left (by decide) _
  have ha := TCPConnection.awaitFrame_encodeBinaryFrame (P := P) hp (encodeBinaryFrame_wirePayload hsize) hr
  have hd := P.aead.decrypt_encrypt t.channel.sessionKeys.recvKey (SecureChannel.nonce sequence) ad
    innerPayload
  have hn' := SecureChannel.le_maxSequence hn
  simp only [resumeReceive, EStateM.run_bind, onTcp_run, ha,
    openFrame_ok (unpackFrame_wirePayload hn), onChannel_run, sealed,
    SecureChannel.decrypt_run P hs hn' hd]
  rfl

end EncryptedTransport
