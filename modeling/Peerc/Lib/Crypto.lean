import Peerc.Lib.Bytes

-- Ed25519 as a library offers it: raw keys, deterministic signing, and verification of a signature
-- over a message. Both laws are part of the interface's contract.
structure SignatureScheme where
  publicKey : (privateKey : Bytes) → Bytes
  sign      : (privateKey message : Bytes) → Bytes
  verify    : (publicKey signature message : Bytes) → Bool
  publicKey_length (sk : Bytes) : (publicKey sk).length = 32
  verify_sign (sk m : Bytes) : verify (publicKey sk) (sign sk m) m

-- X25519: `exchange` has no result when the shared value is all zero.
structure KeyExchange where
  publicKey : (privateKey : Bytes) → Bytes
  exchange  : (privateKey publicKey : Bytes) → Option Bytes
  publicKey_length (sk : Bytes) : (publicKey sk).length = 32

-- ChaCha20-Poly1305: a ciphertext ends with a tag of 16 bytes, and what does not authenticate has no
-- plaintext.
structure Aead where
  encrypt : (key nonce ad plaintext : Bytes) → Bytes
  decrypt : (key nonce ad ciphertext : Bytes) → Option Bytes
  encrypt_length (k n a p : Bytes) : (encrypt k n a p).length = p.length + 16
  decrypt_encrypt (k n a p : Bytes) : decrypt k n a (encrypt k n a p) = some p

-- HKDF: extract and expand
structure Hkdf where
  derive : (ikm salt info : Bytes) → (length : Nat) → Bytes
  derive_length (ikm salt info : Bytes) (n : Nat) : (derive ikm salt info n).length = n

-- Scrypt with fixed parameters, as a function that tells secrets apart
structure Kdf where
  derive : (secret salt : Bytes) → Bytes
  derive_inj {secret secret' salt : Bytes} : derive secret salt = derive secret' salt → secret = secret'

-- AES-GCM as a way to wrap keys, which are unwrapped under the wrapping key only
structure KeyWrap where
  encrypt : (key nonce plaintext : Bytes) → Bytes
  decrypt : (key nonce ciphertext : Bytes) → Option Bytes
  decrypt_encrypt (k n p : Bytes) : decrypt k n (encrypt k n p) = some p
  key_of_decrypt {k k' n p q : Bytes} : decrypt k n (encrypt k' n p) = some q → k = k'

-- Instances that evaluate: a public key is the private key cut or filled to 32 bytes, a signature is
-- the key followed by the message, a shared value is the xor of two keys and a tag is a part of the key, of
-- the nonce and of the associated data.

def SignatureScheme.transparent : SignatureScheme where
  publicKey sk := (sk ++ List.replicate 32 0).take 32
  sign sk m    := (sk ++ List.replicate 32 0).take 32 ++ m
  verify pk sig m := sig = pk ++ m
  publicKey_length := by simp
  verify_sign := by simp

def KeyExchange.transparent : KeyExchange where
  publicKey sk := (sk ++ List.replicate 32 0).take 32
  exchange sk pk :=
    let shared := ((sk ++ List.replicate 32 0).take 32).zipWith (· ^^^ ·) pk
    if shared.all (· = 0) then none else some shared
  publicKey_length := by simp

-- A derived key starts with the label.
def Hkdf.transparent : Hkdf where
  derive ikm salt info n := (info ++ salt ++ ikm ++ List.replicate n 0).take n
  derive_length ikm salt info n := by
    rw [List.length_take, List.length_append, List.length_replicate]
    omega

def Aead.tag (key nonce ad : Bytes) : Bytes :=
  (key.take 4 ++ nonce.drop 8 ++ ad ++ List.replicate 16 0).take 16

theorem Aead.tag_length (key nonce ad : Bytes) : (tag key nonce ad).length = 16 := by
  simp only [tag, List.length_take, List.length_append, List.length_replicate]
  omega

def Aead.transparent : Aead where
  encrypt k n a p := p ++ tag k n a
  decrypt k n a c := if c.drop (c.length - 16) = tag k n a then some (c.take (c.length - 16)) else none
  encrypt_length k n a p := by simp [tag_length]
  decrypt_encrypt k n a p := by simp [tag_length]

def Kdf.transparent : Kdf where
  derive secret salt := salt ++ secret
  derive_inj := List.append_cancel_left

-- Each byte of the key follows a one, and the plaintext a zero.

def KeyWrap.wrap : (key plaintext : Bytes) → Bytes
  | [],     p => 0 :: p
  | b :: k, p => 1 :: b :: wrap k p

def KeyWrap.unwrap : (key ciphertext : Bytes) → Option Bytes
  | [],     0 :: p      => some p
  | b :: k, 1 :: b' :: c => if b = b' then unwrap k c else none
  | _,      _           => none

theorem KeyWrap.unwrap_wrap (k p : Bytes) : unwrap k (wrap k p) = some p := by
  induction k
  case nil => rfl
  case cons b k hi => rw [wrap, unwrap, if_pos rfl, hi]

theorem KeyWrap.eq_of_unwrap {k k' p q : Bytes} (h : unwrap k (wrap k' p) = some q) : k = k' := by
  induction k generalizing k'
  case nil =>
    cases k'
    case nil => rfl
    case cons => simp [wrap, unwrap] at h
  case cons b k hi =>
    cases k'
    case nil => simp [wrap, unwrap] at h
    case cons b' k' =>
      simp only [wrap, unwrap, Option.ite_none_right_eq_some] at h
      rw [h.left, hi h.right]

def KeyWrap.transparent : KeyWrap where
  encrypt k _ p := wrap k p
  decrypt k _ c := unwrap k c
  decrypt_encrypt k _ p := unwrap_wrap k p
  key_of_decrypt h := eq_of_unwrap h
