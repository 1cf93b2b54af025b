import Mathlib.Logic.Function.Basic
import Peerc.Lib.Machine
import Peerc.Lib.Refines
import Peerc.Handshake.Keys
import Peerc.Transport.Effect

-- The two ends of a session, and the calls of `encrypt` that have returned

inductive SessionEnd
  | initiator
  | responder
  deriving DecidableEq

-- A call of `encrypt` that has returned `frame`, with the key and the nonce it was encrypted with
structure NonceUse where
  endpoint  : SessionEnd
  key       : Bytes
  nonce     : Bytes
  plaintext : Bytes
  ad        : Bytes
  frame     : EncryptedFrame

inductive ChannelCall
  | encrypt (plaintext ad : Bytes)
  | decrypt (sequence : Nat) (ciphertext ad : Bytes)

structure NonceLog where
  channel : SessionEnd → SecureChannel
  uses    : List NonceUse

namespace NonceLog

open SecureChannel

variable {P : Primitives} {k k' : DerivedKeys} {s : NonceLog} {e : SessionEnd} {c : SecureChannel}

def call (P : Primitives) (s : NonceLog) (e : SessionEnd) : ChannelCall → NonceLog
  | .encrypt plaintext ad =>
    match (encrypt P plaintext ad).run (s.channel e) with
    | .ok frame c => {
        channel := Function.update s.channel e c
        uses    := s.uses ++ [{
          endpoint := e
          key      := (s.channel e).sessionKeys.sendKey
          nonce    := nonce frame.sequence
          plaintext, ad, frame
        }]
      }
    | .error _ c => { s with channel := Function.update s.channel e c }
  | .decrypt sequence ciphertext ad =>
    { s with
      channel := Function.update s.channel e ((decrypt P sequence ciphertext ad).run (s.channel e)).state }

-- `SecureChannel(session_keys)` at both ends
def start (k k' : DerivedKeys) : NonceLog where
  channel
    | .initiator => { sessionKeys := k.toSessionKeys }
    | .responder => { sessionKeys := k'.toSessionKeys }
  uses := []

def machine (P : Primitives) (k k' : DerivedKeys) : Machine NonceLog (SessionEnd × ChannelCall) where
  Init s      := s = start k k'
  step s call := some (s.call P call.fst call.snd)

-- The sequence numbers that an endpoint has used, in the order of its calls
def sequences (s : NonceLog) (e : SessionEnd) : List Nat :=
  (s.uses.filter (·.endpoint = e)).map (·.frame.sequence)

-- What is known of a call that has returned
structure Recorded (P : Primitives) (s : NonceLog) (u : NonceUse) : Prop where
  key        : u.key = (s.channel u.endpoint).sessionKeys.sendKey
  nonce      : u.nonce = SecureChannel.nonce u.frame.sequence
  bound      : u.frame.sequence ≤ maxSequence
  past       : u.frame.sequence < (s.channel u.endpoint).sendSequence
  ciphertext : u.frame.ciphertext = P.aead.encrypt u.key u.nonce u.ad u.plaintext

structure Counted (P : Primitives) (s : NonceLog) : Prop where
  keys      : (s.channel .initiator).sessionKeys.sendKey ≠ (s.channel .responder).sessionKeys.sendKey
  recorded  : ∀ u ∈ s.uses, s.Recorded P u
  sequences : ∀ e, s.sequences e = List.range (s.channel e).sendSequence
  fresh     : (s.uses.map fun u => (u.key, u.nonce)).Nodup

theorem Counted.endpoint_eq (h : Counted P s) {e e' : SessionEnd}
    (hk : (s.channel e).sessionKeys.sendKey = (s.channel e').sessionKeys.sendKey) : e = e' := by
  cases e <;> cases e'
  case initiator.initiator | responder.responder => rfl
  case initiator.responder => exact absurd hk h.keys
  case responder.initiator => exact absurd hk.symm h.keys

-- A channel that goes on with the same keys and the same counter changes nothing that counts.
theorem Counted.update (h : Counted P s) (hk : c.sessionKeys = (s.channel e).sessionKeys)
    (hs : c.sendSequence = (s.channel e).sendSequence) :
    Counted P { s with channel := Function.update s.channel e c } := by
  have hkeys (e') : (Function.update s.channel e c e').sessionKeys = (s.channel e').sessionKeys := by
    rw [Function.update_apply]
    split
    case isTrue he => rw [he, hk]
    case isFalse => rfl
  have hseq (e') : (Function.update s.channel e c e').sendSequence = (s.channel e').sendSequence := by
    rw [Function.update_apply]
    split
    case isTrue he => rw [he, hs]
    case isFalse => rfl
  constructor
  case keys => simpa only [hkeys] using h.keys
  case recorded =>
    intro u hu
    have hr := h.recorded u hu
    exact ⟨by rw [hkeys, hr.key], hr.nonce, hr.bound, by rw [hseq]; exact hr.past, hr.ciphertext⟩
  case sequences =>
    intro e'
    rw [hseq]
    exact h.sequences e'
  case fresh => exact h.fresh

-- The counter has not been used as a nonce under the key of this endpoint.
theorem Counted.unused (h : Counted P s) (hn : (s.channel e).sendSequence ≤ maxSequence) :
    ((s.channel e).sessionKeys.sendKey, nonce (s.channel e).sendSequence) ∉
      s.uses.map fun u => (u.key, u.nonce) := by
  intro hm
  obtain ⟨u, hu, he⟩ := List.mem_map.mp hm
  obtain ⟨hkey, hnonce⟩ := Prod.mk.inj he
  have hr := h.recorded u hu
  have hend : u.endpoint = e := h.endpoint_eq (hr.key.symm.trans hkey)
  have hsq : u.frame.sequence = (s.channel e).sendSequence :=
    nonce_inj hr.bound hn (hr.nonce.symm.trans hnonce)
  have hpast := hr.past
  rw [hend, hsq] at hpast
  exact Nat.lt_irrefl _ hpast

-- The log after a call of `encrypt` that returns
def encrypted (P : Primitives) (s : NonceLog) (e : SessionEnd) (plaintext ad : Bytes) : NonceLog where
  channel := Function.update s.channel e
    { s.channel e with sendSequence := (s.channel e).sendSequence + 1 }
  uses := s.uses ++ [{
    endpoint := e
    key      := (s.channel e).sessionKeys.sendKey
    nonce    := nonce (s.channel e).sendSequence
    plaintext, ad
    frame    := ⟨(s.channel e).sendSequence,
      sealed P plaintext ad (s.channel e).sessionKeys.sendKey (s.channel e).sendSequence⟩
  }]

section

variable {plaintext ad : Bytes} (e' : SessionEnd)

theorem encrypted_sessionKeys :
    ((s.encrypted P e plaintext ad).channel e').sessionKeys = (s.channel e').sessionKeys := by
  simp only [encrypted, Function.update_apply]
  split
  case isTrue he => rw [he]
  case isFalse => rfl

theorem encrypted_sendSequence : ((s.encrypted P e plaintext ad).channel e').sendSequence =
    (s.channel e').sendSequence + if e' = e then 1 else 0 := by
  simp only [encrypted, Function.update_apply]
  split
  case isTrue he => rw [he]
  case isFalse => rfl

theorem encrypted_sequences : (s.encrypted P e plaintext ad).sequences e' =
    s.sequences e' ++ if e' = e then [(s.channel e).sendSequence] else [] := by
  rw [sequences, encrypted, List.filter_append, List.map_append, sequences]
  by_cases he : e' = e
  case pos => simp [he]
  case neg => simp [he, Ne.symm he]

end

theorem Counted.encrypted (h : Counted P s) (hn : (s.channel e).sendSequence ≤ maxSequence)
    (plaintext ad : Bytes) : Counted P (s.encrypted P e plaintext ad) := by
  constructor
  case keys => simpa only [encrypted_sessionKeys] using h.keys
  case recorded =>
    intro u hu
    rcases List.mem_append.mp hu with hu | hu
    case inl =>
      have hr := h.recorded u hu
      refine ⟨by rw [encrypted_sessionKeys, hr.key], hr.nonce, hr.bound, ?_, hr.ciphertext⟩
      rw [encrypted_sendSequence]
      exact Nat.lt_add_right _ hr.past
    case inr =>
      cases List.mem_singleton.mp hu
      refine ⟨by rw [encrypted_sessionKeys], rfl, hn, ?_, rfl⟩
      rw [encrypted_sendSequence, if_pos rfl]
      exact Nat.lt_succ_self _
  case sequences =>
    intro e'
    rw [encrypted_sequences, encrypted_sendSequence, h.sequences e']
    by_cases he : e' = e
    case pos => simp [he, List.range_succ]
    case neg => simp [he]
  case fresh =>
    have hu := h.unused hn
    rw [NonceLog.encrypted, List.map_append, List.nodup_append]
    refine ⟨h.fresh, List.nodup_singleton _, fun a ha b hb hab => ?_⟩
    rw [hab, List.mem_singleton.mp hb] at ha
    exact hu ha

theorem Counted.call (h : Counted P s) (e : SessionEnd) (call : ChannelCall) :
    Counted P (s.call P e call) := by
  cases call
  case encrypt plaintext ad =>
    rw [NonceLog.call]
    by_cases hn : (s.channel e).sendSequence ≤ maxSequence
    case neg =>
      obtain ⟨msg, hx⟩ := encrypt_run_exhausted P plaintext ad (Nat.lt_of_not_le hn)
      rw [hx]
      exact h.update rfl rfl
    case pos =>
      by_cases hl : Encryptable plaintext ad
      case neg =>
        rw [encrypt_run_overflow P hn hl]
        exact h.update rfl rfl
      case pos =>
        rw [encrypt_run P hn hl]
        exact h.encrypted hn plaintext ad
  case decrypt sequence ciphertext ad =>
    rw [NonceLog.call]
    rcases decrypt_cases P (s.channel e) sequence ciphertext ad with ⟨err, hd⟩ | ⟨hs, hn, p, hd⟩
    · rw [hd]
      exact h.update rfl rfl
    · rw [decrypt_run P hs hn hd]
      exact h.update rfl rfl

theorem Counted.start (hk : k.sendKey ≠ k'.sendKey) : Counted P (start k k') :=
  ⟨hk, List.forall_mem_nil _, fun e => by cases e <;> rfl, List.nodup_nil⟩

theorem Counted.reachable (hk : k.sendKey ≠ k'.sendKey) (h : (machine P k k').Reachable s) :
    Counted P s := by
  refine h.invariant ?_ ?_
  · rintro _ rfl
    exact .start hk
  · rintro s ⟨e, call⟩ _ hs - ⟨⟩
    exact hs.call e call

-- A counter at its end stays there.
theorem call_exhausted (h : maxSequence < (s.channel e).sendSequence) (plaintext ad : Bytes) :
    s.call P e (.encrypt plaintext ad) = s := by
  obtain ⟨msg, hx⟩ := encrypt_run_exhausted P plaintext ad h
  rw [call, hx]
  dsimp only
  rw [Function.update_eq_self]

end NonceLog

-- Both ends of a session use each nonce at most once under a key, without gaps, and none at all after the
-- last one.
open NonceLog SecureChannel in
theorem nonces_never_reused (P : Primitives) (K : Hkdf) (secret salt : Bytes) (k k' : DerivedKeys)
    (labels : K.derive secret salt Kdf.infoInitToResp Kdf.keyLen ≠
      K.derive secret salt Kdf.infoRespToInit Kdf.keyLen)
    (hk : Kdf.deriveSessionKeys K secret salt true = .ok k)
    (hk' : Kdf.deriveSessionKeys K secret salt false = .ok k')
    (s : NonceLog) (h : (machine P k k').Reachable s) :
    (s.uses.map fun u => (u.key, u.nonce)).Nodup ∧
    (∀ u ∈ s.uses, u.key = (s.channel u.endpoint).sessionKeys.sendKey ∧
      u.frame.ciphertext = P.aead.encrypt u.key u.nonce u.ad u.plaintext) ∧
    (∀ e, s.sequences e = List.range (s.channel e).sendSequence) ∧
    ∀ e, maxSequence < (s.channel e).sendSequence → ∀ plaintext ad,
      (∃ msg, (encrypt P plaintext ad).run (s.channel e) =
        .error (.encryption (.sequenceExhausted msg)) (s.channel e)) ∧
      s.call P e (.encrypt plaintext ad) = s := by
  obtain ⟨hs, hl⟩ := Kdf.lengths_of_ok hk
  cases hk.symm.trans (Kdf.deriveSessionKeys_initiator hs hl)
  cases hk'.symm.trans (Kdf.deriveSessionKeys_responder hs hl)
  have hc : Counted P s := .reachable labels h
  refine ⟨hc.fresh, fun u hu => ?_, hc.sequences, fun e he plaintext ad => ?_⟩
  · have hr := hc.recorded u hu
    exact ⟨hr.key, hr.ciphertext⟩
  · exact ⟨encrypt_run_exhausted P plaintext ad he, call_exhausted he plaintext ad⟩

namespace NonceLog

def zeroKey : Bytes := List.replicate 32 0

def initiatorKeys : DerivedKeys :=
  Kdf.keysOf .transparent zeroKey zeroKey Kdf.infoInitToResp Kdf.infoRespToInit

def responderKeys : DerivedKeys :=
  Kdf.keysOf .transparent zeroKey zeroKey Kdf.infoRespToInit Kdf.infoInitToResp

-- Both ends encrypt one message, and the initiator tries to decrypt one that nobody sent.
def calls : List (SessionEnd × ChannelCall) := [
  (.initiator, .encrypt [1] []), (.initiator, .decrypt 5 [] []), (.responder, .encrypt [2] [])
]

end NonceLog

open NonceLog in
theorem nonces_never_reused_both_ends : ∃ s, (machine .transparent initiatorKeys responderKeys).Reachable s ∧
    s.uses.map (·.frame.sequence) = [0, 0] ∧ (s.uses.map fun u => (u.key, u.nonce)).Nodup := by
  have hk : Kdf.deriveSessionKeys .transparent zeroKey zeroKey true = .ok initiatorKeys :=
    Kdf.deriveSessionKeys_initiator rfl rfl
  have hk' : Kdf.deriveSessionKeys .transparent zeroKey zeroKey false = .ok responderKeys :=
    Kdf.deriveSessionKeys_responder rfl rfl
  have labels : Hkdf.transparent.derive zeroKey zeroKey Kdf.infoInitToResp Kdf.keyLen ≠
      Hkdf.transparent.derive zeroKey zeroKey Kdf.infoRespToInit Kdf.keyLen := by
    decide +kernel
  have h₀ : (machine .transparent initiatorKeys responderKeys).Reachable (start initiatorKeys responderKeys) :=
    .init rfl
  obtain ⟨s, hr, hs⟩ := h₀.exec_any (p := fun s => s.uses.map (·.frame.sequence) = [0, 0]) calls
    (by decide +kernel)
  exact ⟨s, hr, of_decide_eq_true hs, (nonces_never_reused .transparent .transparent zeroKey zeroKey
    initiatorKeys responderKeys labels hk hk' s hr).left⟩
