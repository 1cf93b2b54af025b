import Peerc.Transport.Session

namespace EncryptedTransport

open SecureChannel (maxSequence maxDataLen Encryptable)

variable {P : Primitives} {t t' : EncryptedTransport} {out : Outgoing} {ad p : Bytes} {drain : Drain}

-- A call writes one frame that carries the counter and advances the counter, or raises a
-- `TransportError` and leaves the counter or closes the connection.
def Keeps (t : EncryptedTransport) : EStateM.Result TransportFailure EncryptedTransport Unit → Prop
  | .ok _ t' => ∃ frame, t'.tcp.written = t.tcp.written ++ [frame] ∧
      frameSequence frame = t.channel.sendSequence ∧
      t'.channel.sendSequence = t.channel.sendSequence + 1
  | .error e t' => e.isTransportError ∧
      (t'.channel.sendSequence = t.channel.sendSequence ∨ t'.isClosing)

-- A content of `n` bytes, which gets a marker, a tag and a number. A connection that is closing takes
-- what is too large for a frame as well.
structure FitsSize (t : EncryptedTransport) (n : Nat) (ad : Bytes) : Prop where
  data     : n + 1 ≤ maxDataLen
  ad       : ad.length ≤ maxDataLen
  sequence : t.channel.sendSequence < 2 ^ 64
  frame    : t.isClosing ∨ minEncryptedPayloadLen + (n + 1) ≤ Protocol.maxMessageSize

-- What is no `dict` is refused before anything happens.
def Fits (P : Primitives) (t : EncryptedTransport) (ad : Bytes) : Outgoing → Prop
  | .message (.obj fields) => ∃ rawJson, Protocol.encodeJson P (.obj fields) = some rawJson ∧
      t.FitsSize rawJson.length ad
  | .message _             => True
  | .binary payload        => t.FitsSize payload.length ad

-- The condition in terms of what is encrypted
theorem fits_iff : t.Fits P ad out ↔
    (∃ msg, out.inner P = .error (.transportError msg)) ∨
    ∃ p, out.inner P = .ok p ∧ Encryptable p ad ∧ t.channel.sendSequence < 2 ^ 64 ∧
      (t.isClosing ∨ minEncryptedPayloadLen + p.length ≤ Protocol.maxMessageSize) := by
  have hsize (m : UInt8) (bs : Bytes) : t.FitsSize bs.length ad ↔
      Encryptable (m :: bs) ad ∧ t.channel.sendSequence < 2 ^ 64 ∧
        (t.isClosing ∨ minEncryptedPayloadLen + (m :: bs).length ≤ Protocol.maxMessageSize) :=
    ⟨fun h => ⟨⟨h.data, h.ad⟩, h.sequence, h.frame⟩, fun ⟨⟨hd, ha⟩, hs, hf⟩ => ⟨hd, ha, hs, hf⟩⟩
  match out with
  | .binary payload => simp [Fits, Outgoing.inner, hsize typeBinary]
  | .message (.obj fields) =>
    cases he : Protocol.encodeJson P (.obj fields) <;>
      simp [Fits, Outgoing.inner, he, hsize typeJson]
  | .message .null | .message (.bool _) | .message (.int _) | .message (.float _)
  | .message (.str _) | .message (.arr _) => simp [Fits, Outgoing.inner]

theorem sendEncrypted_keeps_iff (h : t.channel.sendSequence ≤ maxSequence) :
    t.Keeps ((sendEncrypted P p ad drain).run t) ↔
      Encryptable p ad ∧ t.channel.sendSequence < 2 ^ 64 ∧
        (t.isClosing ∨ minEncryptedPayloadLen + p.length ≤ Protocol.maxMessageSize) := by
  have he := sendEncrypted_effect P t p ad drain
  generalize (sendEncrypted P p ad drain).run t = r at he
  cases he
  case exhausted hs _ _ _ => omega
  case overflow hl => simp [Keeps, TransportFailure.isTransportError, hl]
  case unpackable hw =>
    have hn : ¬t.channel.sendSequence < 2 ^ 64 := Nat.not_lt.mpr hw
    simp only [Keeps, TransportFailure.isTransportError, hn, Bool.false_eq_true, false_and, and_false]
  case closing hl hn hc =>
    simp only [Keeps, hl, hn, hc, true_and, true_or, iff_true]
    exact ⟨rfl, .inr hc⟩
  case oversized hl hn ho hs =>
    have ho' : ¬t.advance.isClosing := ho
    have ha : t.advance.channel.sendSequence ≠ t.channel.sendSequence := Nat.succ_ne_self _
    simp only [Keeps, ha, ho, ho', Nat.not_le.mpr hs, Bool.false_eq_true, or_false, and_false]
  case flushed hl hn ho hs _ =>
    simp only [hl, hn, hs, or_true, true_and, iff_true]
    exact ⟨_, rfl, frameSequence_wireFrame hn, rfl⟩
  case lost hl hn ho hs _ =>
    simp only [Keeps, hl, hn, hs, or_true, true_and, iff_true]
    exact ⟨rfl, .inr rfl⟩

theorem send_keeps_iff (h : t.channel.sendSequence ≤ maxSequence) :
    t.Keeps ((out.send P ad drain).run t) ↔ t.Fits P ad out := by
  rw [fits_iff]
  cases hi : out.inner P
  case error e =>
    rw [Outgoing.send_run_error hi]
    obtain rfl | ⟨msg, rfl⟩ := Outgoing.inner_eq_error hi <;>
      simp [Keeps, TransportFailure.isTransportError]
  case ok p =>
    rw [Outgoing.send_run hi, sendEncrypted_keeps_iff h]
    simp

-- A run of calls that all meet the condition, with the calls that have returned
inductive Sends (P : Primitives) : EncryptedTransport → List Sent → EncryptedTransport → Prop
  | refl (t : EncryptedTransport) : Sends P t [] t
  | returned {t t' t'' : EncryptedTransport} {c : Sent} {cs : List Sent} {drain : Drain}
    (wellFormed : c.out.WellFormed) (fits : t.Fits P c.ad c.out)
    (run : (c.out.send P c.ad drain).run t = .ok () t') (rest : Sends P t' cs t'') :
    Sends P t (c :: cs) t''
  | raised {t t' t'' : EncryptedTransport} {c : Sent} {cs : List Sent} {drain : Drain}
    {e : TransportFailure} (fits : t.Fits P c.ad c.out)
    (run : (c.out.send P c.ad drain).run t = .error e t') (rest : Sends P t' cs t'') :
    Sends P t cs t''

-- What a call that raises leaves unchanged, if the connection is open afterwards
theorem send_raised {e : TransportFailure} (hf : t.Fits P ad out)
    (h : (out.send P ad drain).run t = .error e t') :
    t'.isClosing ∨ t'.channel = t.channel ∧ t'.tcp.written = t.tcp.written := by
  obtain ⟨_, hi⟩ | ⟨p, hi, hl, hn, hs⟩ := fits_iff.mp hf
  case inl =>
    cases (Outgoing.send_run_error hi t).symm.trans h
    exact .inr ⟨rfl, rfl⟩
  case inr =>
    have he := sendEncrypted_effect P t p ad drain
    rw [Outgoing.send_run hi] at h
    rw [h] at he
    cases he
    case exhausted hc _ _ => exact .inl hc
    case overflow hl' => exact absurd hl hl'
    case unpackable hw => omega
    case closing hc => exact .inl hc
    case oversized ho hw =>
      obtain hc | hs := hs
      · exact absurd hc ho
      · omega
    case lost => exact .inl rfl

-- A call that returns
theorem send_returned (h : (out.send P ad drain).run t = .ok () t') :
    ∃ p, out.inner P = .ok p ∧ t.channel.sendSequence < 2 ^ 64 ∧
      minEncryptedPayloadLen + p.length ≤ Protocol.maxMessageSize ∧
      t' = t.advance.write (t.nextFrame P p ad) := by
  cases hi : out.inner P
  case error e => cases (Outgoing.send_run_error hi t).symm.trans h
  case ok p =>
    have he := sendEncrypted_effect P t p ad drain
    rw [Outgoing.send_run hi] at h
    rw [h] at he
    cases he
    case flushed hn _ hs _ => exact ⟨p, rfl, hn, hs, rfl⟩

-- No call opens a connection.
theorem send_closing (h : t.isClosing) : 
    ∃ e t', (out.send P ad drain).run t = .error e t' ∧ t'.isClosing := by
  cases hi : out.inner P
  case error e => exact ⟨e, t, Outgoing.send_run_error hi t, h⟩
  case ok p =>
    have he := sendEncrypted_effect P t p ad drain
    rw [Outgoing.send_run hi]
    generalize (sendEncrypted P p ad drain).run t = r at he
    cases he
    case exhausted hc _ _ => exact ⟨_, _, rfl, hc⟩
    case overflow | unpackable | closing => exact ⟨_, _, rfl, h⟩
    case oversized ho _ | flushed ho _ _ | lost ho _ _ => exact absurd h ho

theorem Sends.closing {cs : List Sent} (h : Sends P t cs t') (hc : t.isClosing) : t'.isClosing := by
  induction h
  case refl => exact hc
  case returned c _ drain _ _ run _ _ =>
    obtain ⟨_, _, he, -⟩ := send_closing (P := P) hc
    cases he.symm.trans run
  case raised run _ hi =>
    obtain ⟨_, _, he, hc'⟩ := send_closing (P := P) hc
    cases he.symm.trans run
    exact hi hc'

theorem Sends.written {cs : List Sent} (h : Sends P t cs t') (ho : ¬t'.isClosing) :
    t.tcp.written <+: t'.tcp.written := by
  induction h
  case refl => exact List.prefix_rfl
  case returned run rest hi =>
    obtain ⟨p, -, -, -, rfl⟩ := send_returned run
    exact (List.prefix_append _ _).trans (hi ho)
  case raised fits run rest hi =>
    obtain hc | ⟨-, hw⟩ := send_raised fits run
    · exact absurd (rest.closing hc) ho
    · exact hw ▸ hi ho

-- The peer reads the frames of a run. It has the key and expects the number of the first one.
theorem Sends.accepted {cs : List Sent} {q : EncryptedTransport} {frames : List Bytes} {tail : Bytes}
    (h : Sends P t cs t') (ho : ¬t'.isClosing) (hw : t'.tcp.written = t.tcp.written ++ frames)
    (hk : q.channel.sessionKeys.recvKey = t.channel.sessionKeys.sendKey)
    (hn : q.channel.expectedRecvSequence = t.channel.sendSequence) (hq : ¬q.isClosing)
    (hr : q.tcp.reader = frames.flatten ++ tail) :
    ∃ q', (cs.mapM fun c => receiveFrame P c.ad).run q = .ok (cs.map (·.out.content)) q' ∧
      q'.tcp.reader = tail := by
  induction h generalizing q frames
  case refl =>
    cases List.self_eq_append_right.mp hw
    exact ⟨q, rfl, hr⟩
  case returned t _ _ c cs drain wf _ run rest hi =>
    obtain ⟨p, hp, hs, hsize, rfl⟩ := send_returned run
    obtain ⟨frames', hf⟩ := rest.written ho
    -- The first frame is the one of this call, and the others are those of the rest of the run.
    have hw' := hf.trans hw
    simp only [write, TCPConnection.write, advance, List.append_assoc, List.append_cancel_left_eq] at hw'
    subst hw'
    have hr' : q.tcp.reader = wireFrame P q.channel.sessionKeys.recvKey t.channel.sendSequence p c.ad ++
        (frames'.flatten ++ tail) := by
      simp [hr, hk, nextFrame]
    obtain ⟨q', hm, hq'⟩ := hi (q := { q with tcp := { q.tcp with reader := frames'.flatten ++ tail } }.expectNext)
      ho hf.symm hk (congrArg (· + 1) hn) hq rfl
    refine ⟨q', ?_, hq'⟩
    rw [List.mapM_cons]
    simp only [EStateM.run_bind, receiveFrame_run hq, resumeReceive_wireFrame hr' hn.symm hs hsize,
      Outgoing.decodePlaintext_inner wf hp, MonadExcept.ofExcept, EStateM.run_pure, hm]
    rfl
  case raised fits run rest hi =>
    obtain hc | ⟨hc, hw'⟩ := send_raised fits run
    · exact absurd (rest.closing hc) ho
    · exact hi ho (hw' ▸ hw) (hc ▸ hk) (hc ▸ hn) hq hr

end EncryptedTransport

open EncryptedTransport in
theorem failed_send_keeps_session_iff {P : Primitives} {t : EncryptedTransport}
    (h : t.channel.sendSequence ≤ SecureChannel.maxSequence) (out : Outgoing) (ad : Bytes) (drain : Drain) :
    (t.Keeps ((out.send P ad drain).run t) ↔ t.Fits P ad out) ∧
    -- After a run of such calls, a peer that reads what was written gets every call that has returned.
    ∀ cs t', Sends P t cs t' → ¬t'.isClosing → ∀ frames, t'.tcp.written = t.tcp.written ++ frames →
      ∀ q tail, q.channel.sessionKeys.recvKey = t.channel.sessionKeys.sendKey →
        q.channel.expectedRecvSequence = t.channel.sendSequence → ¬q.isClosing →
        q.tcp.reader = frames.flatten ++ tail →
        ∃ q', (cs.mapM fun c => receiveFrame P c.ad).run q = .ok (cs.map (·.out.content)) q' ∧
          q'.tcp.reader = tail :=
  ⟨send_keeps_iff h, fun _ _ hs ho _ hw _ _ hk hn hq hr => hs.accepted ho hw hk hn hq hr⟩

namespace EncryptedTransport.FailedSend

def keys : SessionKeys := ⟨List.replicate 32 1, List.replicate 32 2, rfl, rfl⟩

def mirrored : SessionKeys := ⟨List.replicate 32 2, List.replicate 32 1, rfl, rfl⟩

def fresh (keys : SessionKeys) : EncryptedTransport where
  tcp     := {}
  channel := { sessionKeys := keys }

def chunk : Sent := ⟨.binary [7], []⟩

theorem chunk_fits : (fresh keys).Fits .transparent chunk.ad chunk.out where
  data     := by decide
  ad       := by decide
  sequence := by decide
  frame    := .inr (by decide)

theorem not_keeps_oversized {payload : Bytes} (h : payload.length = 104857576) :
    ¬(fresh keys).Keeps ((sendBinary .transparent payload [] .flushed).run (fresh keys)) := by
  intro hk
  obtain ⟨-, -, hc | hs⟩ := (sendEncrypted_keeps_iff (Nat.zero_le _)).mp hk
  · cases hc
  · rw [List.length_cons, h] at hs
    exact absurd hs (by decide)

end EncryptedTransport.FailedSend

open EncryptedTransport FailedSend in
theorem failed_send_keeps_session_oversized :
    ∃ payload : Bytes, payload.length = 104857576 ∧ ¬(fresh keys).isClosing ∧
      ¬(fresh keys).Keeps ((sendBinary .transparent payload [] .flushed).run (fresh keys)) := by
  obtain ⟨payload, h⟩ : ∃ payload : Bytes, payload.length = 104857576 :=
    ⟨List.replicate 104857576 0, List.length_replicate⟩
  exact ⟨payload, h, by decide, not_keeps_oversized h⟩

open EncryptedTransport FailedSend in
theorem failed_send_keeps_session_chunk :
    (fresh keys).Keeps ((chunk.out.send .transparent chunk.ad .flushed).run (fresh keys)) ∧
    ∃ q, ([chunk].mapM fun c => receiveFrame .transparent c.ad).run { fresh mirrored with
        tcp := { reader := (fresh keys).nextFrame .transparent [0x42, 7] [] } } =
      .ok [chunk.out.content] q := by
  have ⟨hk, hr⟩ := failed_send_keeps_session_iff (P := .transparent) (t := fresh keys) (Nat.zero_le _)
    chunk.out chunk.ad .flushed
  refine ⟨hk.mpr chunk_fits, ?_⟩
  have hrun : (chunk.out.send .transparent chunk.ad .flushed).run (fresh keys) =
      .ok () ((fresh keys).advance.write ((fresh keys).nextFrame .transparent [0x42, 7] [])) := rfl
  have hs := Sends.returned (c := chunk) trivial chunk_fits hrun (.refl _)
  obtain ⟨q, hq, -⟩ := hr _ _ hs (by decide) _ rfl { fresh mirrored with tcp := { reader := _ } } []
    rfl rfl (by decide) rfl
  exact ⟨q, hq⟩
