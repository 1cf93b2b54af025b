import Peerc.Handshake.Perform

-- What a handshake that returns has computed from the messages it has read

namespace Handshake

variable {P : Primitives} {party : Party} {env : Env} {sh sh' : Shared} {r : Result}

structure InitiatorOutcome (P : Primitives) (party : Party) (env : Env) (r : Result) (m : Json)
    (respTranscript transcript : Bytes) : Prop where
  read      : awaitFrame P "handshake_response" env.first = .ok m
  responder : computeResponderTranscript P (initFields P party env.ephemeral env.nonce) (.ofMessage m) =
    some respTranscript
  initiator : computeInitiatorTranscript respTranscript (m.text "signature").val = some transcript
  secret    : sharedSecret P env.ephemeral (Fields.ofMessage m).ephemeralKey.val = .ok r.sharedSecret
  hash      : computeFinalTranscriptHash P transcript (party.identity.sign P transcript).hex =
    some r.transcriptHash
  name      : r.peerName = (Fields.ofMessage m).senderName

theorem performHandshakeInitiator_eq_ok
    (h : (performHandshakeInitiator P party env).run sh = .ok r sh') :
    ∃ m respTranscript transcript, InitiatorOutcome P party env r m respTranscript transcript := by
  rw [performHandshakeInitiator_eq, run_bind_eq_ok] at h
  obtain ⟨⟨st, frame⟩, _, hs, h⟩ := h
  cases initiatorStart_eq_ok (liftExcept_eq_ok.mp hs).left
  obtain ⟨m, pub, dec, store, ⟨st', frame'⟩, ha, hreply, hfin, -⟩ := Script.perform_eq_ok h
  obtain ⟨_, -, hread⟩ := Except.bind_eq_ok.mp ha.read
  obtain ⟨_, -, hfin⟩ := Except.bind_eq_ok.mp hfin
  obtain ⟨t, t', hacc, rfl⟩ := initiatorSign_eq_ok.mp (initiatorReply_eq_ok.mp hreply).left
  obtain ⟨secret, hash, hsec, hh, rfl⟩ := initiatorFinish_eq_ok.mp hfin
  exact ⟨m, t, t', hread, hacc.responder, hacc.initiator, hsec, hh, rfl⟩

structure ResponderOutcome (P : Primitives) (party : Party) (env : Env) (r : Result) (m f : Json)
    (respTranscript transcript : Bytes) : Prop where
  read      : awaitFrame P "handshake_init" env.first = .ok m
  finish    : awaitFrame P "handshake_finish" env.second = .ok f
  responder : computeResponderTranscript P (.ofMessage m) (responseFields P party env.ephemeral env.nonce) =
    some respTranscript
  initiator : computeInitiatorTranscript respTranscript (party.identity.sign P respTranscript).hex =
    some transcript
  secret    : sharedSecret P env.ephemeral (Fields.ofMessage m).ephemeralKey.val = .ok r.sharedSecret
  hash      : computeFinalTranscriptHash P transcript (f.text "signature").val = some r.transcriptHash
  name      : r.peerName = (Fields.ofMessage m).senderName

theorem performHandshakeResponder_eq_ok
    (h : (performHandshakeResponder P party env).run sh = .ok r sh') :
    ∃ m f respTranscript transcript, ResponderOutcome P party env r m f respTranscript transcript := by
  rw [performHandshakeResponder_eq] at h
  obtain ⟨m, pub, dec, store, ⟨st, frame⟩, ha, hreply, hfin, -⟩ := Script.perform_eq_ok h
  obtain ⟨_, -, hfin⟩ := Except.bind_eq_ok.mp hfin
  obtain ⟨f, hread', hfin⟩ := Except.bind_eq_ok.mp hfin
  obtain ⟨t, ht, rfl⟩ := responderSign_eq_ok.mp (responderReply_eq_ok.mp hreply).left
  obtain ⟨-, t', secret, hash, ht', -, -, hsec, hh, rfl⟩ := responderOnFinish_eq_ok.mp hfin
  exact ⟨m, f, t, t', ha.read, hread', ht, ht', hsec, hh, rfl⟩

end Handshake
