import Peerc.Handshake.Dialogue

-- The keys of two runs that have used each other's fields

namespace Handshake

variable {P : Primitives} {A B : Party} {envA envB : Env} {m₁ m₂ m₃ : Json} {K : Hkdf} {rA rB : Result}

-- The messages that the runs have read name the other one's fields.
structure Matched (P : Primitives) (A B : Party) (envA envB : Env) (m₁ m₂ m₃ : Json) : Prop where
  readInit     : awaitFrame P "handshake_init" envB.first = .ok m₁
  readResponse : awaitFrame P "handshake_response" envA.first = .ok m₂
  readFinish   : awaitFrame P "handshake_finish" envB.second = .ok m₃
  init         : Fields.ofMessage m₁ = initFields P A envA.ephemeral envA.nonce
  response     : Fields.ofMessage m₂ = responseFields P B envB.ephemeral envB.nonce

structure KeysAgree (K : Hkdf) (rA rB : Result) : Prop where
  secret : rA.sharedSecret = rB.sharedSecret
  hash   : rA.transcriptHash = rB.transcriptHash
  keys   : ∃ kA kB, rA.deriveSessionKeys K true = .ok kA ∧ rB.deriveSessionKeys K false = .ok kB ∧
    kA.Mirrors kB

-- The end of what is hashed: the text of either signature on a line of its own
def signatureLines (response finish : Text) : Str :=
  response.val ++ 0x0A :: finish.val

def hashedTranscript (P : Primitives) (init response : Fields) (lines : Str) : Bytes :=
  initiatorDomain ++ responderTranscript P init response ++ newline ++ lines.encodeAscii.getD []

theorem encodeAscii_signatureLines {received finish : Text} {b c : Bytes}
    (hb : received.val.encodeAscii = some b) (hc : finish.val.encodeAscii = some c) :
    (signatureLines received finish).encodeAscii = some (b ++ newline ++ c) := by
  simp only [Str.encodeAscii, Option.ite_none_right_eq_some, Option.some.injEq] at hb hc ⊢
  obtain ⟨hb, rfl⟩ := hb
  obtain ⟨hc, rfl⟩ := hc
  refine ⟨Str.isAscii_append.mpr ⟨hb, Str.isAscii_cons.mpr ⟨by decide, hc⟩⟩, ?_⟩
  simp [signatureLines, newline]

-- What either side hashes, by the signature that it has received and the one that it has sent
theorem hash_eq {init response : Fields} {received finish : Text} {t hash : Bytes}
    (ht : computeInitiatorTranscript (responderTranscript P init response) received.val = some t)
    (hh : computeFinalTranscriptHash P t finish.val = some hash) :
    (∃ b, (signatureLines received finish).encodeAscii = some b) ∧
      hash = P.sha256 (hashedTranscript P init response (signatureLines received finish)) := by
  simp only [computeInitiatorTranscript, computeFinalTranscriptHash, Option.pure_def, Option.bind_eq_bind,
    Option.bind_eq_some_iff, Option.some.injEq] at ht hh
  obtain ⟨b, hb, rfl⟩ := ht
  obtain ⟨c, hc, rfl⟩ := hh
  have he := encodeAscii_signatureLines hb hc
  refine ⟨⟨_, he⟩, ?_⟩
  simp only [hashedTranscript, he, Option.getD_some, List.append_assoc]

theorem hashedTranscript_inj {init response : Fields} {l l' : Str} (ha : ∃ b, l.encodeAscii = some b)
    (ha' : ∃ b, l'.encodeAscii = some b)
    (h : hashedTranscript P init response l = hashedTranscript P init response l') : l = l' := by
  obtain ⟨b, hb⟩ := ha
  obtain ⟨b', hb'⟩ := ha'
  have h := List.append_cancel_left h
  rw [hb, hb', Option.getD_some, Option.getD_some] at h
  exact Str.encodeAscii_inj hb (h ▸ hb')

theorem hashedTranscript_length {init response : Fields} {l : Str} (h : ∃ b, l.encodeAscii = some b) :
    (hashedTranscript P init response l).length =
      (initiatorDomain ++ responderTranscript P init response ++ newline).length + l.length := by
  obtain ⟨b, hb⟩ := h
  have hl : b.length = l.length := by
    simp only [Str.encodeAscii, Option.ite_none_right_eq_some, Option.some.injEq] at hb
    rw [← hb.right, List.length_map]
  rw [hashedTranscript, hb, Option.getD_some, List.length_append, hl]

-- A key that the other side has drawn is always accepted.
theorem sharedSecret_hex {ephemeral ephemeral' secret : Bytes} :
    sharedSecret P ephemeral (P.x25519.publicKey ephemeral').hexText.val = .ok secret ↔
      P.x25519.exchange ephemeral (P.x25519.publicKey ephemeral') = some secret := by
  have hx : Bytes.fromHex (P.x25519.publicKey ephemeral').hexText.val = some (P.x25519.publicKey ephemeral') :=
    Bytes.fromHex_hex _
  rw [sharedSecret_eq_ok]
  constructor
  · rintro ⟨raw, hr, -, hs⟩
    cases hx.symm.trans hr
    exact hs
  · intro hs
    exact ⟨_, hx, P.x25519.publicKey_length _, hs⟩

variable {t t' u u' : Bytes}

theorem Matched.secret (hm : Matched P A B envA envB m₁ m₂ m₃) (hP : P.Lawful)
    (hA : InitiatorOutcome P A envA rA m₂ t t') (hB : ResponderOutcome P B envB rB m₁ m₃ u u') :
    rA.sharedSecret = rB.sharedSecret ∧ rA.sharedSecret.length = 32 := by
  obtain ⟨secret, hl, hx, hx'⟩ := hP.exchange envA.ephemeral envB.ephemeral
  have hsA := hA.secret
  have hsB := hB.secret
  rw [hm.response] at hsA
  rw [hm.init] at hsB
  have heA : secret = rA.sharedSecret := Option.some.inj (hx.symm.trans (sharedSecret_hex.mp hsA))
  have heB : secret = rB.sharedSecret := Option.some.inj (hx'.symm.trans (sharedSecret_hex.mp hsB))
  exact ⟨heA.symm.trans heB, heA ▸ hl⟩

-- The signatures as the initiator and as the responder see them

def initiatorLines (P : Primitives) (A : Party) (m₁ m₂ : Json) : Str :=
  signatureLines (m₂.text "signature")
    (finishSignature P A (.ofMessage m₁) (.ofMessage m₂) (m₂.text "signature"))

def responderLines (P : Primitives) (B : Party) (m₁ m₂ m₃ : Json) : Str :=
  signatureLines (responseSignature P B (.ofMessage m₁) (.ofMessage m₂)) (m₃.text "signature")

theorem Matched.initiator_hash (hm : Matched P A B envA envB m₁ m₂ m₃)
    (hA : InitiatorOutcome P A envA rA m₂ t t') :
    (∃ b, (initiatorLines P A m₁ m₂).encodeAscii = some b) ∧
      rA.transcriptHash =
        P.sha256 (hashedTranscript P (.ofMessage m₁) (.ofMessage m₂) (initiatorLines P A m₁ m₂)) := by
  have ht := hA.responder
  rw [← hm.init, computeResponderTranscript_eq_responderTranscript, Option.some.injEq] at ht
  subst ht
  have hs : (A.identity.sign P t').hexText =
      finishSignature P A (.ofMessage m₁) (.ofMessage m₂) (m₂.text "signature") := by
    rw [finishSignature, initiatorTranscript, hA.initiator, Option.getD_some]
  rw [initiatorLines, ← hs]
  exact hash_eq hA.initiator hA.hash

theorem Matched.responder_hash (hm : Matched P A B envA envB m₁ m₂ m₃)
    (hB : ResponderOutcome P B envB rB m₁ m₃ t t') :
    (∃ b, (responderLines P B m₁ m₂ m₃).encodeAscii = some b) ∧
      rB.transcriptHash =
        P.sha256 (hashedTranscript P (.ofMessage m₁) (.ofMessage m₂) (responderLines P B m₁ m₂ m₃)) := by
  have ht := hB.responder
  rw [← hm.response, computeResponderTranscript_eq_responderTranscript, Option.some.injEq] at ht
  subst ht
  exact hash_eq hB.initiator hB.hash

-- The keys agree if both sides have hashed the same.
theorem Matched.keysAgree (hm : Matched P A B envA envB m₁ m₂ m₃) (hP : P.Lawful)
    (hA : InitiatorOutcome P A envA rA m₂ t t') (hB : ResponderOutcome P B envB rB m₁ m₃ u u')
    (h : rA.transcriptHash = rB.transcriptHash) : KeysAgree K rA rB := by
  obtain ⟨hs, hl⟩ := hm.secret hP hA hB
  have hh : rA.transcriptHash.length = 32 := by
    rw [(hm.initiator_hash hA).right]
    exact hP.sha256_length _
  refine ⟨hs, h, _, _, Kdf.deriveSessionKeys_initiator hl hh, ?_, Kdf.keysOf_mirrors K _ _ _ _⟩
  rw [Result.deriveSessionKeys, ← hs, ← h]
  exact Kdf.deriveSessionKeys_responder hl hh

end Handshake
