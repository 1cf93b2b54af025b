import Peerc.Handshake.Basic
import Peerc.Transport.Basic

-- core/crypto/kdf.py

-- The keys of the channel, with the public id of the session
structure DerivedKeys extends SessionKeys where
  sessionId : Str

-- Each side sends with the key that the other one receives with.
structure DerivedKeys.Mirrors (k k' : DerivedKeys) : Prop where
  sendKey   : k.sendKey = k'.recvKey
  recvKey   : k.recvKey = k'.sendKey
  sessionId : k.sessionId = k'.sessionId

inductive KdfError
  | kdfError (msg : Message)

namespace Kdf

def keyLen : Nat := 32

def sessionIdLen : Nat := 16

def infoInitToResp : Bytes := Bytes.ascii "peerc-v2:initiator-to-responder"

def infoRespToInit : Bytes := Bytes.ascii "peerc-v2:responder-to-initiator"

def infoSessionId : Bytes := Bytes.ascii "peerc-v2:session-id"

def deriveSessionKeys (K : Hkdf) (sharedSecret salt : Bytes) (isInitiator : Bool) :
    Except KdfError DerivedKeys :=
  if sharedSecret.length ≠ 32 then
    .error <| .kdfError [.text "shared_secret must be exactly 32 bytes, got ", .int sharedSecret.length]
  else if salt.length ≠ 32 then
    .error <| .kdfError [.text "salt must be exactly 32 bytes, got ", .int salt.length]
  else
    let initToRespKey := K.derive sharedSecret salt infoInitToResp keyLen
    let respToInitKey := K.derive sharedSecret salt infoRespToInit keyLen
    let sessionId := (K.derive sharedSecret salt infoSessionId sessionIdLen).hex
    if isInitiator then
      .ok ⟨⟨initToRespKey, respToInitKey, K.derive_length .., K.derive_length ..⟩, sessionId⟩
    else
      .ok ⟨⟨respToInitKey, initToRespKey, K.derive_length .., K.derive_length ..⟩, sessionId⟩

variable {K : Hkdf} {secret salt : Bytes}

-- What a side derives that sends under the label `send` and receives under the label `recv`
def keysOf (K : Hkdf) (secret salt send recv : Bytes) : DerivedKeys where
  sendKey        := K.derive secret salt send keyLen
  recvKey        := K.derive secret salt recv keyLen
  sendKey_length := K.derive_length ..
  recvKey_length := K.derive_length ..
  sessionId      := (K.derive secret salt infoSessionId sessionIdLen).hex

theorem deriveSessionKeys_initiator (hs : secret.length = 32) (hl : salt.length = 32) :
    deriveSessionKeys K secret salt true = .ok (keysOf K secret salt infoInitToResp infoRespToInit) := by
  simp only [deriveSessionKeys, hs, hl, ne_eq, not_true_eq_false, if_false]
  rfl

theorem deriveSessionKeys_responder (hs : secret.length = 32) (hl : salt.length = 32) :
    deriveSessionKeys K secret salt false = .ok (keysOf K secret salt infoRespToInit infoInitToResp) := by
  simp only [deriveSessionKeys, hs, hl, ne_eq, not_true_eq_false, if_false]
  rfl

theorem lengths_of_ok {isInitiator : Bool} {k : DerivedKeys}
    (h : deriveSessionKeys K secret salt isInitiator = .ok k) : secret.length = 32 ∧ salt.length = 32 := by
  by_cases hs : secret.length = 32
  case neg =>
    rw [deriveSessionKeys, if_pos hs] at h
    cases h
  by_cases hl : salt.length = 32
  case neg =>
    rw [deriveSessionKeys, if_neg (not_not.mpr hs), if_pos hl] at h
    cases h
  exact ⟨hs, hl⟩

theorem keysOf_mirrors (K : Hkdf) (secret salt send recv : Bytes) :
    (keysOf K secret salt send recv).Mirrors (keysOf K secret salt recv send) :=
  ⟨rfl, rfl, rfl⟩

end Kdf

-- `HandshakeResult.derive_session_keys`
def Handshake.Result.deriveSessionKeys (K : Hkdf) (r : Result) (isInitiator : Bool) :
    Except KdfError DerivedKeys :=
  Kdf.deriveSessionKeys K r.sharedSecret r.transcriptHash isInitiator
