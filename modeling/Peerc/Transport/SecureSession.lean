import Peerc.Handshake.Keys
import Peerc.Lib.Refines
import Peerc.Transport.Session

-- core/transport/session.py

-- The times at which a session was made and last used are left out: nothing reads them.
structure SecureSession where
  transport   : EncryptedTransport
  handshake   : Handshake.Result
  sessionId   : Str
  isInitiator : Bool

namespace SecureSession

def peerDeviceId (s : SecureSession) : Text :=
  s.handshake.peerDeviceId

def peerPublicKey (s : SecureSession) : Text :=
  s.handshake.peerPublicKey

def isAlive (s : SecureSession) : Bool :=
  !s.transport.isClosing

end SecureSession

-- `ConnectTimeoutError` and `TransportError` of the connection, and what the handshake and the derivation of
-- the keys raise
inductive SessionError
  | connectTimeout (msg : Message)
  | transport (msg : Message)
  | handshake (e : Handshake.Failure)
  | kdf (e : KdfError)

-- How `asyncio.open_connection` ends. An exception is given by its text.
inductive Opening
  | opened (tcp : TCPConnection)
  | timedOut
  | failed (e : Str)

-- core/transport/tcp.py
def openTcpConnection (host : Str) (port : Int) (timeout : Double) : Opening → Except SessionError TCPConnection
  | .opened tcp => .ok tcp
  | .timedOut   => .error <| .connectTimeout [.text "Timed out connecting to ", .str host, .text ":", .int port,
      .text " after ", .json (.float timeout), .text "s"]
  | .failed e   => .error <| .transport [.text "Failed to connect to ", .str host, .text ":", .int port,
      .text ": ", .str e]

-- Everything the environment decides while a session is set up: the handshake, and the streams as the
-- handshake leaves them
structure SessionEnv extends Handshake.Env where
  reader        : Bytes
  written       : List Bytes
  writerClosing : Bool

def SessionEnv.leave (env : SessionEnv) (tcp : TCPConnection) : TCPConnection :=
  { tcp with reader := env.reader, written := env.written, writerClosing := env.writerClosing }

-- What the process shares between its handshakes, and the connection once it is open
structure SessionSetup where
  shared : Handshake.Shared
  tcp    : Option TCPConnection := none

abbrev SessionM := EStateM SessionError SessionSetup

namespace SecureSession

open Handshake

def onShared (x : HandshakeM Result) : SessionM Result := fun s =>
  match x.run s.shared with
  | .ok r shared    => .ok r { s with shared }
  | .error e shared => .error (.handshake e) { s with shared }

-- `derive_session_keys`
def deriveKeys (K : Hkdf) (r : Result) (isInitiator : Bool) : Except SessionError DerivedKeys :=
  match r.deriveSessionKeys K isInitiator with
  | .ok keys => .ok keys
  | .error e => .error (.kdf e)

-- The `try` blocks, which differ in the role only
def negotiate (K : Hkdf) (perform : HandshakeM Result) (isInitiator : Bool) (tcp : TCPConnection) :
    SessionM SecureSession := do
  modify ({ · with tcp := some tcp })
  let handshake ← onShared perform
  let keys ← deriveKeys K handshake isInitiator
  return {
    transport := { tcp, channel := { sessionKeys := keys.toSessionKeys } }
    handshake
    sessionId := keys.sessionId
    isInitiator
  }

-- Whatever is raised, the connection is closed.
def establish (K : Hkdf) (perform : HandshakeM Result) (isInitiator : Bool) (tcp : TCPConnection) :
    SessionM SecureSession :=
  tryCatch (negotiate K perform isInitiator tcp) fun e => do
    modify ({ · with tcp := some (TCPConnection.close.run tcp).state })
    throw e

end SecureSession

open SecureSession

def initiateSecureSession (P : Primitives) (K : Hkdf) (host : Str) (port : Int) (timeout : Double)
    (opening : Opening) (party : Handshake.Party) (env : SessionEnv) : SessionM SecureSession := do
  let tcp ← openTcpConnection host port timeout opening
  establish K (Handshake.performHandshakeInitiator P party env.toEnv) true (env.leave tcp)

def acceptSecureSession (P : Primitives) (K : Hkdf) (tcp : TCPConnection) (party : Handshake.Party)
    (env : SessionEnv) : SessionM SecureSession :=
  establish K (Handshake.performHandshakeResponder P party env.toEnv) false (env.leave tcp)
