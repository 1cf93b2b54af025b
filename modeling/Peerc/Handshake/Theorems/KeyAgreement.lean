import Peerc.Handshake.Theorems.Completes

namespace Handshake

open Protocol

variable {P : Primitives} {A B : Party} {m₁ m₂ m₃ : Json}

-- Both texts arrive as they were sent.
theorem initiatorLines_eq_responderLines
    (h₂ : m₂.text "signature" = responseSignature P B (.ofMessage m₁) (.ofMessage m₂))
    (h₃ : m₃.text "signature" =
      finishSignature P A (.ofMessage m₁) (.ofMessage m₂) (m₂.text "signature")) :
    initiatorLines P A m₁ m₂ = responderLines P B m₁ m₂ m₃ := by
  rw [initiatorLines, responderLines, ← h₃, ← h₂]

theorem key_agreement_iff (P : Primitives) (hP : P.Lawful) (K : Hkdf) (A B : Party) (envA envB : Env)
    (shA shB shA' shB' : Shared) (rA rB : Result) (m₁ m₂ m₃ : Json)
    (hA : (performHandshakeInitiator P A envA).run shA = .ok rA shA')
    (hB : (performHandshakeResponder P B envB).run shB = .ok rB shB')
    (hm : Matched P A B envA envB m₁ m₂ m₃)
    (hcollision :
      let hashed := hashedTranscript P (.ofMessage m₁) (.ofMessage m₂)
      P.sha256 (hashed (initiatorLines P A m₁ m₂)) = P.sha256 (hashed (responderLines P B m₁ m₂ m₃)) →
        hashed (initiatorLines P A m₁ m₂) = hashed (responderLines P B m₁ m₂ m₃)) :
    KeysAgree K rA rB ↔ initiatorLines P A m₁ m₂ = responderLines P B m₁ m₂ m₃ := by
  obtain ⟨_, t, t', hA⟩ := performHandshakeInitiator_eq_ok hA
  obtain ⟨_, _, u, u', hB⟩ := performHandshakeResponder_eq_ok hB
  cases hA.read.symm.trans hm.readResponse
  cases hB.read.symm.trans hm.readInit
  cases hB.finish.symm.trans hm.readFinish
  obtain ⟨haA, hhA⟩ := hm.initiator_hash hA
  obtain ⟨haB, hhB⟩ := hm.responder_hash hB
  constructor
  · intro h
    exact hashedTranscript_inj haA haB (hcollision (hhA.symm.trans (h.hash.trans hhB)))
  · intro h
    refine hm.keysAgree hP hA hB ?_
    rw [hhA, hhB, h]

namespace Loopback

theorem digest_ne {x y : Bytes} (h : y.length = x.length + 1) : digest x ≠ digest y := by
  intro he
  have hb : UInt8.ofNat x.length = UInt8.ofNat y.length := (List.cons.inj he).left
  have hb := congrArg UInt8.toNat hb
  rw [h, UInt8.toNat_ofNat', UInt8.toNat_ofNat'] at hb
  omega

-- The answer of alice as `bytes.fromhex` also reads it: with a blank in front

theorem isAscii_blank_hex (bs : Bytes) : Str.IsAscii (0x20 :: bs.hex) :=
  Str.isAscii_cons.mpr ⟨by decide, Bytes.hex_isAscii bs⟩

def blankHex (bs : Bytes) : Text :=
  ⟨0x20 :: bs.hex, .of_encodable (isAscii_blank_hex bs).encodable⟩

theorem fromHex_blankHex (bs : Bytes) : Bytes.fromHex (blankHex bs).val = Bytes.fromHex bs.hex := by
  simp only [blankHex]
  cases bs.hex
  case nil => rfl
  case cons c s => rfl

def answer : Bytes :=
  alice.party.identity.sign prims
    (initiatorTranscript prims (alice.init prims) (bob.response prims) (signatureOf prims alice bob))

def rewritten : Json :=
  makeHandshakeFinish (blankHex answer) .zero

theorem rewritten_fits : Fits prims rewritten := by
  refine fits_finish prims_lawful ?_ .zero
  rw [blankHex, List.length_cons, Bytes.hex_length, answer, DeviceKeypair.sign, prims_lawful.sign_length]
  decide

theorem lines_length :
    (responderLines prims bob.party (alice.initMessage prims)
      (bob.responseMessage prims (signatureOf prims alice bob)) rewritten).length =
    (initiatorLines prims alice.party (alice.initMessage prims)
      (bob.responseMessage prims (signatureOf prims alice bob))).length + 1 := by
  change (signatureLines (signatureOf prims alice bob) (blankHex answer)).length =
    (signatureLines (signatureOf prims alice bob) answer.hexText).length + 1
  simp only [signatureLines, blankHex, Bytes.hexText, List.length_append, List.length_cons, Nat.add_assoc]

end Loopback

open Loopback

-- Both handshakes return, but the blank is hashed on one side only.
theorem key_agreement_blank : ∃ envA envB shA shB rA rB m₁ m₂ m₃,
    (performHandshakeInitiator prims alice.party envA).run alice.shared = .ok rA shA ∧
    (performHandshakeResponder prims bob.party envB).run bob.shared = .ok rB shB ∧
    Matched prims alice.party bob.party envA envB m₁ m₂ m₃ ∧ ¬KeysAgree .transparent rA rB := by
  obtain ⟨f₁, f₂, f₃, h⟩ := exists_conversation prims_lawful alice_ready bob_ready
    (device_welcomes _ _ _) (device_welcomes _ _ _) alice_fits bob_fits
  obtain ⟨f₃', h₃⟩ := rewritten_fits.encodeFrame
  have hread : awaitFrame prims "handshake_finish" (.ofBytes f₃') = .ok rewritten :=
    awaitFrame_ofBytes (makeHandshakeFinish_wellFormed alice_ready.send) h₃ _
  obtain ⟨rA, rB, shA, shB, hrA, hrB, -, -⟩ := h.returns hread
    (expectMessage_finish (List.cons_ne_nil _ _)) (fromHex_blankHex answer)
  have hm := h.matched hread
  refine ⟨_, _, shA, shB, rA, rB, _, _, _, hrA, hrB, hm, fun ha => ?_⟩
  obtain ⟨_, t, t', hA⟩ := performHandshakeInitiator_eq_ok hrA
  obtain ⟨_, _, u, u', hB⟩ := performHandshakeResponder_eq_ok hrB
  cases hA.read.symm.trans hm.readResponse
  cases hB.read.symm.trans hm.readInit
  cases hB.finish.symm.trans hm.readFinish
  obtain ⟨haA, hhA⟩ := hm.initiator_hash hA
  obtain ⟨haB, hhB⟩ := hm.responder_hash hB
  refine digest_ne ?_ (hhA.symm.trans (ha.hash.trans hhB))
  rw [hashedTranscript_length haA, hashedTranscript_length haB, Nat.add_assoc]
  exact congrArg _ lines_length

-- With the messages as they were sent
theorem key_agreement_loopback : ∃ envA envB shA shB rA rB m₁ m₂ m₃,
    (performHandshakeInitiator prims alice.party envA).run alice.shared = .ok rA shA ∧
    (performHandshakeResponder prims bob.party envB).run bob.shared = .ok rB shB ∧
    Matched prims alice.party bob.party envA envB m₁ m₂ m₃ ∧ KeysAgree .transparent rA rB := by
  obtain ⟨f₁, f₂, f₃, h⟩ := exists_conversation prims_lawful alice_ready bob_ready
    (device_welcomes _ _ _) (device_welcomes _ _ _) alice_fits bob_fits
  obtain ⟨rA, rB, shA, shB, hrA, hrB, -, -⟩ := h.returns h.readFinish
    (expectMessage_finish (Conversation.signature_ne_nil h.lawful)) rfl
  have hm := h.matched h.readFinish
  have hl : initiatorLines prims alice.party (alice.initMessage prims)
      (bob.responseMessage prims (signatureOf prims alice bob)) =
        responderLines prims bob.party (alice.initMessage prims)
          (bob.responseMessage prims (signatureOf prims alice bob))
          (makeHandshakeFinish (answerOf prims alice bob) alice.now.send) :=
    initiatorLines_eq_responderLines rfl rfl
  refine ⟨_, _, shA, shB, rA, rB, _, _, _, hrA, hrB, hm, ?_⟩
  exact (key_agreement_iff prims prims_lawful .transparent _ _ _ _ _ _ _ _ rA rB _ _ _ hrA hrB hm
    (fun _ => congrArg _ hl)).mpr hl

end Handshake
