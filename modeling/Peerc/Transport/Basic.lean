import Peerc.Protocol.Frame

-- core/crypto/encryption.py

-- The keys of `core/crypto/kdf.py`, which have 32 bytes each: `SecureChannel` refuses all others.
structure SessionKeys where
  sendKey : Bytes
  recvKey : Bytes
  sendKey_length : sendKey.length = 32
  recvKey_length : recvKey.length = 32

inductive EncryptionError
  | decryption (msg : Message)
  | replayOrReorder (msg : Message)
  | sequenceExhausted (msg : Message)

-- The `cryptography` package raises `OverflowError`, which is no `EncryptionError`.
inductive ChannelFailure
  | encryption (e : EncryptionError)
  | overflow

structure EncryptedFrame where
  sequence   : Nat
  ciphertext : Bytes

@[ext]
structure SecureChannel where
  sessionKeys          : SessionKeys
  sendSequence         : Nat := 0
  expectedRecvSequence : Nat := 0

abbrev ChannelM := EStateM ChannelFailure SecureChannel

namespace SecureChannel

def nonceLen : Nat := 12

def maxSequence : Nat := 2 ^ (nonceLen * 8) - 1

-- The longest data and the longest associated data that the package encrypts
def maxDataLen : Nat := 2 ^ 31 - 1

-- `_construct_nonce`
def constructNonce (sequence : Nat) : ChannelM Bytes := do
  if sequence > maxSequence then
    throw <| .encryption <| .sequenceExhausted [.text "sequence ", .int sequence,
      .text " out of range for a ", .int nonceLen, .text "-byte nonce"]
  return Bytes.ofNatBE nonceLen sequence

-- `_send_cipher.encrypt`. No associated data is the same as an empty text.
def sendCipherEncrypt (P : Primitives) (nonce plaintext ad : Bytes) : ChannelM Bytes := do
  if plaintext.length > maxDataLen ∨ ad.length > maxDataLen then throw .overflow
  return P.aead.encrypt (← get).sessionKeys.sendKey nonce ad plaintext

def encrypt (P : Primitives) (plaintext ad : Bytes) : ChannelM EncryptedFrame := do
  let sequence := (← get).sendSequence
  let nonce ← constructNonce sequence
  let ciphertext ← sendCipherEncrypt P nonce plaintext ad
  modify fun c => { c with sendSequence := c.sendSequence + 1 }
  return { sequence, ciphertext }

def decrypt (P : Primitives) (sequence : Nat) (ciphertext ad : Bytes) : ChannelM Bytes := do
  let c ← get
  if sequence ≠ c.expectedRecvSequence then
    throw <| .encryption <| .replayOrReorder [.text "expected sequence ",
      .int c.expectedRecvSequence, .text ", got ", .int sequence]
  let nonce ← constructNonce sequence
  match P.aead.decrypt c.sessionKeys.recvKey nonce ad ciphertext with
  | none => throw <| .encryption <| .decryption [.text "authentication failed"]
  | some plaintext =>
    modify fun c => { c with expectedRecvSequence := c.expectedRecvSequence + 1 }
    return plaintext

end SecureChannel

-- core/transport/tcp.py

-- `TransportError` and its subclass `ConnectionClosedError` come first. The others pass through:
-- `SecureChannel`, `json` and `struct` raise them.
inductive TransportFailure
  | transportError (msg : Message)
  | connectionClosed (msg : Message)
  | channel (e : ChannelFailure)
  | valueError
  | structError

def TransportFailure.isTransportError : TransportFailure → Bool
  | transportError _ | connectionClosed _ => true
  | _                                     => false

-- `reader` holds what the network has still to hand over, `written` the argument of each call of
-- `writer.write`, and `writerClosing` is `writer.is_closing()`.
@[ext]
structure TCPConnection where
  reader        : Bytes := []
  written       : List Bytes := []
  closed        : Bool := false
  writerClosing : Bool := false

-- How an `await` of `writer.drain()` ends
inductive Drain
  | flushed
  | lost

abbrev TcpM := EStateM TransportFailure TCPConnection

def Protocol.FrameError.message : Protocol.FrameError → Message
  | .protocolError msg => msg
  | .valueError        => [.exc "ValueError"]

namespace TCPConnection

def isClosing (tcp : TCPConnection) : Bool :=
  tcp.closed || tcp.writerClosing

-- The part of `read_frame` that may be suspended: whether the connection is closing is asked before it.
def awaitFrame (P : Primitives) : TcpM Protocol.AnyFrame := fun tcp =>
  match (Protocol.readAnyFrame Protocol.readExactly P).run tcp.reader with
  | .ok frame reader => .ok frame { tcp with reader }
  | .error .incompleteRead reader =>
    .error (.connectionClosed [.text "Connection closed by peer: ", .exc "IncompleteReadError"])
      { tcp with reader, closed := true }
  | .error (.frame e) reader =>
    .error (.transportError (.text "TCP frame read error: " :: e.message)) { tcp with reader }

def readFrame (P : Primitives) : TcpM Protocol.AnyFrame := do
  if (← get).isClosing then
    throw <| .connectionClosed [.text "Cannot read from closed TCP connection"]
  awaitFrame P

-- The end of `write_binary_frame`
def awaitDrain : Drain → TcpM Unit
  | .flushed => pure ()
  | .lost    => do
    modify ({ · with closed := true })
    throw <| .connectionClosed [.text "Connection lost while writing binary frame: ", .exc "OSError"]

def writeBinaryFrame (payload : Bytes) (drain : Drain) : TcpM Unit := do
  if (← get).isClosing then
    throw <| .connectionClosed [.text "Cannot write to closed TCP connection"]
  match Protocol.encodeBinaryFrame payload with
  | .error e  => throw <| .transportError (.text "TCP binary frame write error: " :: e.message)
  | .ok frame => modify fun tcp => { tcp with written := tcp.written ++ [frame] }
  awaitDrain drain

def close : TcpM Unit := do
  if (← get).closed then return
  modify ({ · with closed := true, writerClosing := true })

end TCPConnection

-- core/transport/secure.py

@[ext]
structure EncryptedTransport where
  tcp     : TCPConnection
  channel : SecureChannel

abbrev TransportM := EStateM TransportFailure EncryptedTransport

-- What `receive_frame` returns: the kind and the payload
inductive Content
  | json (message : Json)
  | binary (payload : Bytes)
  | raw (payload : Bytes)

namespace EncryptedTransport

-- `b"J"` and `b"B"`
def typeJson : UInt8 := 0x4A
def typeBinary : UInt8 := 0x42

def sequenceSize : Nat := 8

def minEncryptedPayloadLen : Nat := sequenceSize + 16

def onTcp {α} (x : TcpM α) : TransportM α := fun t =>
  match x t.tcp with
  | .ok a tcp    => .ok a { t with tcp }
  | .error e tcp => .error e { t with tcp }

def onChannel {α} (x : ChannelM α) : TransportM α := fun t =>
  match x t.channel with
  | .ok a channel    => .ok a { t with channel }
  | .error e channel => .error (.channel e) { t with channel }

def isClosing (t : EncryptedTransport) : Bool :=
  t.tcp.isClosing

def close : TransportM Unit :=
  onTcp TCPConnection.close

-- `struct.pack(">Q", n)`
def packSequence (n : Nat) : TransportM Bytes :=
  if n < 2 ^ 64 then pure (Bytes.ofNatBE sequenceSize n) else throw .structError

-- The `try` block of `_send_encrypted`
def encryptFrame (P : Primitives) (innerPayload ad : Bytes) : TransportM EncryptedFrame :=
  tryCatch (onChannel (SecureChannel.encrypt P innerPayload ad)) fun
    | .channel (.encryption (.sequenceExhausted msg)) => do
      close
      throw <| .transportError (.text "Session sequence exhausted: " :: msg)
    | .channel (.encryption (.decryption msg)) | .channel (.encryption (.replayOrReorder msg)) =>
      throw <| .transportError (.text "Frame encryption failed: " :: msg)
    | e => throw e

-- `_send_encrypted`. Nothing is awaited between the encryption and the write.
def sendEncrypted (P : Primitives) (innerPayload ad : Bytes) (drain : Drain) : TransportM Unit := do
  let frame ← encryptFrame P innerPayload ad
  let seqHeader ← packSequence frame.sequence
  onTcp (TCPConnection.writeBinaryFrame (seqHeader ++ frame.ciphertext) drain)

def sendMessage (P : Primitives) (message : Json) (ad : Bytes) (drain : Drain) : TransportM Unit := do
  match message with
  | .obj _ =>
    match Protocol.encodeJson P message with
    | none         => throw .valueError
    | some rawJson => sendEncrypted P (typeJson :: rawJson) ad drain
  | _ => throw <| .transportError [.text "Expected dict message, got ", .text message.typeName]

def sendBinary (P : Primitives) (payload ad : Bytes) (drain : Drain) : TransportM Unit :=
  sendEncrypted P (typeBinary :: payload) ad drain

-- What `receive_frame` does before it decrypts: the sequence number and the ciphertext of a frame
def unpackFrame : Protocol.AnyFrame → Except TransportFailure (Nat × Bytes)
  | .json _ => .error <| .transportError
    [.text "Expected encrypted binary frame, got plain JSON frame"]
  | .binary wirePayload =>
    if wirePayload.length < minEncryptedPayloadLen then
      .error <| .transportError [.text "Encrypted wire frame too short: ", .int wirePayload.length,
        .text " bytes"]
    else .ok (Bytes.toNatBE (wirePayload.take sequenceSize), wirePayload.drop sequenceSize)

-- What it does with the plaintext
def decodePlaintext (P : Primitives) (plaintext : Bytes) : Except TransportFailure Content :=
  match plaintext with
  | [] => .error <| .transportError [.text "Decrypted frame contained empty payload marker"]
  | marker :: body =>
    if marker = typeJson then
      match Protocol.loadsUtf8 P body with
      | .ok message => .ok (.json message)
      | .error .unicodeDecodeError =>
        .error <| .transportError [.text "Decrypted JSON frame malformed: ", .exc "UnicodeDecodeError"]
      | .error .jsonDecodeError =>
        .error <| .transportError [.text "Decrypted JSON frame malformed: ", .exc "JSONDecodeError"]
      | .error .valueError => .error .valueError
    else if marker = typeBinary then .ok (.binary body)
    else .ok (.raw plaintext)

-- The rest of `receive_frame` once its frame has arrived
def openFrame (P : Primitives) (ad : Bytes) (frame : Protocol.AnyFrame) : TransportM Content := do
  let (sequence, ciphertext) ← MonadExcept.ofExcept (unpackFrame frame)
  let plaintext ← onChannel (SecureChannel.decrypt P sequence ciphertext ad)
  MonadExcept.ofExcept (decodePlaintext P plaintext)

def receiveFrame (P : Primitives) (ad : Bytes) : TransportM Content := do
  openFrame P ad (← onTcp (TCPConnection.readFrame P))

end EncryptedTransport
