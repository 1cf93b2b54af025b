import Mathlib.Data.List.Infix
import Peerc.Transport.Session

namespace Endpoint

open EncryptedTransport

variable {P : Primitives} {e : Endpoint} {s : Sent}

theorem record_tcp (tcp : TCPConnection) :
    e.record s { e.transport with tcp } = { e with transport := { e.transport with tcp } } :=
  if_pos rfl

theorem record_advance (tcp : TCPConnection) :
    e.record s { e.transport.advance with tcp } =
      { e with transport := { e.transport.advance with tcp }, sent := e.sent ++ [s] } :=
  if_neg (Nat.succ_ne_self _)

-- Sending leaves the channel as it is, or encrypts one frame and may write it.
theorem send_cases (P : Primitives) (e : Endpoint) (s : Sent) :
    (∃ tcp, e.send P s = { e with transport := { e.transport with tcp } } ∧
      tcp.written = e.transport.tcp.written) ∨
    ∃ tcp p, e.send P s = { e with transport := { e.transport.advance with tcp }, sent := e.sent ++ [s] } ∧
      s.out.inner P = .ok p ∧ e.transport.channel.sendSequence ≤ SecureChannel.maxSequence ∧
      (tcp.written = e.transport.tcp.written ∨
        e.transport.channel.sendSequence < 2 ^ 64 ∧
        minEncryptedPayloadLen + p.length ≤ Protocol.maxMessageSize ∧
        tcp.written = e.transport.tcp.written ++ [e.transport.nextFrame P p s.ad]) := by
  cases hi : s.out.inner P
  case error err =>
    simp only [send, Outgoing.send_run_error hi]
    exact .inl ⟨_, record_tcp _, rfl⟩
  case ok p =>
    have he := sendEncrypted_effect P e.transport p s.ad .flushed
    simp only [send, Outgoing.send_run hi]
    generalize (sendEncrypted P p s.ad .flushed).run e.transport = r at he
    cases he
    case exhausted hw _ => exact .inl ⟨_, record_tcp _, hw⟩
    case overflow => exact .inl ⟨_, record_tcp _, rfl⟩
    case unpackable hs _ _ => exact .inr ⟨_, p, record_advance _, rfl, hs, .inl rfl⟩
    case closing hs _ | oversized hs _ _ =>
      exact .inr ⟨_, p, record_advance _, rfl, SecureChannel.le_maxSequence hs, .inl rfl⟩
    case flushed hs _ hsize _ =>
      exact .inr ⟨_, p, record_advance _, rfl, SecureChannel.le_maxSequence hs, .inr ⟨hs, hsize, rfl⟩⟩
    case lost h => cases h

-- A frame is the one that was written under the key for the call `c` with number `i`.
structure WrittenAs (P : Primitives) (key : Bytes) (sent : List Sent) (frame : Bytes) (i : Nat) (c : Sent) :
    Prop where
  sent   : sent[i]? = some c
  narrow : i < 2 ^ 64
  frame  : ∃ p, c.out.inner P = .ok p ∧ minEncryptedPayloadLen + p.length ≤ Protocol.maxMessageSize ∧
    frame = wireFrame P key i p c.ad

-- What one side can rely on
structure Valid (P : Primitives) (e : Endpoint) : Prop where
  sendSequence : e.transport.channel.sendSequence = e.sent.length
  bounded      : e.sent.length ≤ SecureChannel.maxSequence + 1
  wellFormed   : ∀ c ∈ e.sent, c.out.WellFormed
  written      : ∀ frame ∈ e.transport.tcp.written, ∃ i c,
    WrittenAs P e.transport.channel.sessionKeys.sendKey e.sent frame i c
  expected     : e.transport.channel.expectedRecvSequence = e.received.length

theorem WrittenAs.append {key : Bytes} {sent : List Sent} {frame : Bytes} {i : Nat} {c : Sent}
    (h : WrittenAs P key sent frame i c) (s : Sent) : WrittenAs P key (sent ++ [s]) frame i c where
  sent   := by rw [List.getElem?_append_left (List.getElem?_eq_some_iff.mp h.sent).fst, h.sent]
  narrow := h.narrow
  frame  := h.frame

theorem Valid.send (h : e.Valid P) (hw : s.out.WellFormed) : (e.send P s).Valid P := by
  obtain ⟨tcp, he, ht⟩ | ⟨tcp, p, he, hp, hm, ht⟩ := send_cases P e s
  case inl =>
    rw [he]
    exact ⟨h.sendSequence, h.bounded, h.wellFormed, ht ▸ h.written, h.expected⟩
  case inr =>
    rw [he]
    have hl : (e.sent ++ [s]).length = e.sent.length + 1 := by simp
    have hold : ∀ frame ∈ e.transport.tcp.written, ∃ i c,
        WrittenAs P e.transport.channel.sessionKeys.sendKey (e.sent ++ [s]) frame i c := by
      intro frame hf
      obtain ⟨i, c, hc⟩ := h.written frame hf
      exact ⟨i, c, hc.append s⟩
    rw [h.sendSequence] at hm
    refine ⟨by simp [advance, h.sendSequence], by simp only [hl]; omega, ?_, ?_, h.expected⟩
    case refine_1 =>
      intro c hc
      obtain hc | hc := List.mem_append.mp hc
      · exact h.wellFormed c hc
      · cases List.mem_singleton.mp hc
        exact hw
    case refine_2 =>
      obtain ht | ⟨hn, hsize, ht⟩ := ht
      case inl => exact ht ▸ hold
      case inr =>
        intro frame hf
        change frame ∈ tcp.written at hf
        rw [ht] at hf
        obtain hf | hf := List.mem_append.mp hf
        · exact hold frame hf
        · cases List.mem_singleton.mp hf
          refine ⟨e.sent.length, s, List.getElem?_concat_length, h.sendSequence ▸ hn, p, hp, hsize, ?_⟩
          rw [nextFrame, h.sendSequence]
          rfl

end Endpoint

theorem Side.eq_or_other (x y : Side) : y = x ∨ y = x.other := by
  cases x <;> cases y <;> simp [other]

@[simp]
theorem Side.other_ne (x : Side) : x.other ≠ x := by
  cases x <;> simp [other]

@[simp]
theorem Side.other_other (x : Side) : x.other.other = x := by
  cases x <;> rfl

namespace Session

open EncryptedTransport

structure Invariant (P : Primitives) (s : Session) : Prop where
  mirrored (x : Side) :
    (s x).transport.channel.sessionKeys.recvKey = (s x.other).transport.channel.sessionKeys.sendKey
  distinct (x : Side) :
    (s x).transport.channel.sessionKeys.sendKey ≠ (s x).transport.channel.sessionKeys.recvKey
  valid (x : Side) : (s x).Valid P
  prefixed (x : Side) : (s x).received <+: (s x.other).sent.map (·.out.content)

variable {P : Primitives} {s s₀ : Session} {x : Side} {ad : Bytes}

theorem Initial.invariant (h : s.Initial) : s.Invariant P where
  mirrored := h.mirrored
  distinct := h.distinct
  prefixed := by simp [h.received]
  valid x := {
    sendSequence := by simp [h.sendSequence, h.sent]
    bounded      := by simp [h.sent]
    wellFormed   := by simp [h.sent]
    written      := by simp [h.written]
    expected     := by simp [h.expectedRecvSequence, h.received]
  }

-- One side changes: it keeps its keys and what it has sent, and what it has received is still a prefix.
theorem Invariant.update {e : Endpoint} (h : s.Invariant P) (hv : e.Valid P)
    (hk : e.transport.channel.sessionKeys = (s x).transport.channel.sessionKeys)
    (hs : (s x).sent <+: e.sent) (hr : e.received <+: (s x.other).sent.map (·.out.content)) :
    Invariant P (Function.update s x e) := by
  refine ⟨fun y => ?_, fun y => ?_, fun y => ?_, fun y => ?_⟩ <;>
    obtain rfl | rfl := x.eq_or_other y
  · simpa [hk] using h.mirrored y
  · simpa [hk] using h.mirrored x.other
  · simpa [hk] using h.distinct y
  · simpa using h.distinct x.other
  · simpa using hv
  · simpa using h.valid x.other
  · simpa using hr
  · simpa using (h.prefixed x.other).trans (by simpa using hs.map (·.out.content))

-- What is opened is the next frame of the other side.
theorem Invariant.opened {frame : Protocol.AnyFrame} {tcp : TCPConnection} {ciphertext p : Bytes}
    (h : s.Invariant P) (hi : s.Ideal P x ad)
    (hr : (TCPConnection.awaitFrame P).run (s x).transport.tcp = .ok frame tcp)
    (hu : unpackFrame frame = .ok ((s x).transport.channel.expectedRecvSequence, ciphertext))
    (hm : (s x).transport.channel.expectedRecvSequence ≤ SecureChannel.maxSequence)
    (hd : P.aead.decrypt (s x).transport.channel.sessionKeys.recvKey
      (SecureChannel.nonce (s x).transport.channel.expectedRecvSequence) ad ciphertext = some p) :
    ∃ c, (s x.other).sent[(s x).received.length]? = some c ∧
      decodePlaintext P p = .ok c.out.content := by
  have hp : presented P (s x).transport.tcp = some ((s x).transport.channel.expectedRecvSequence, ciphertext) := by
    simp only [presented, hr, hu, Except.toOption]
  obtain ⟨y, i, c, q, hc, hq, hk, hn, ha, rfl⟩ := hi _ _ _ hp hd
  -- The two directions have different keys, so it is not a frame of this side.
  obtain rfl | rfl := x.eq_or_other y
  case inl => exact absurd hk.symm (h.distinct y)
  case inr =>
    have hv := h.valid x.other
    have hlt := (List.getElem?_eq_some_iff.mp hc).fst
    have hb := hv.bounded
    have hin := SecureChannel.nonce_inj hm (by omega) hn
    rw [P.aead.decrypt_encrypt, Option.some.injEq] at hd
    subst hd
    refine ⟨c, ?_, Outgoing.decodePlaintext_inner (hv.wellFormed c (List.mem_of_getElem? hc)) hq⟩
    rw [← (h.valid x).expected, hin, hc]

-- A frame is rejected without a trace in the channel, or is the next one of the other side.
theorem Invariant.resumeReceive (h : s.Invariant P) (hi : s.Ideal P x ad) :
    (∃ e t, (resumeReceive P ad).run (s x).transport = .error e t ∧
      t.channel = (s x).transport.channel ∧ t.tcp.written = (s x).transport.tcp.written) ∨
    ∃ tcp c, (EncryptedTransport.resumeReceive P ad).run (s x).transport =
        .ok c.out.content { (s x).transport with tcp }.expectNext ∧
      tcp.written = (s x).transport.tcp.written ∧
      (s x.other).sent[(s x).received.length]? = some c := by
  have he := resumeReceive_effect P (s x).transport ad
  generalize (EncryptedTransport.resumeReceive P ad).run (s x).transport = r at he
  cases he
  case rejected e t hc hw _ => exact .inl ⟨e, t, rfl, hc, hw⟩
  case opened tcp frame ciphertext p hr hu hm hd =>
    obtain ⟨c, hc, hp⟩ := h.opened hi hr hu hm hd
    refine .inr ⟨tcp, c, ?_, (TCPConnection.awaitFrame_ok hr).left, hc⟩
    rw [hp]
    rfl

theorem Invariant.receive (h : s.Invariant P) (hi : s.Ideal P x ad) :
    Invariant P (Function.update s x ((s x).receive P ad)) := by
  have hv := h.valid x
  obtain ⟨e, t, he, hc, hw⟩ | ⟨tcp, c, he, hw, hn⟩ := h.resumeReceive hi
  case inl =>
    simp only [Endpoint.receive, he]
    refine h.update ⟨?_, hv.bounded, hv.wellFormed, ?_, ?_⟩ (by rw [hc]) List.prefix_rfl (h.prefixed x)
    · simpa [hc] using hv.sendSequence
    · simpa [hc, hw] using hv.written
    · simpa [hc] using hv.expected
  case inr =>
    simp only [Endpoint.receive, he]
    refine h.update ⟨hv.sendSequence, hv.bounded, hv.wellFormed, ?_, ?_⟩ rfl List.prefix_rfl ?_
    · simpa [expectNext, hw] using hv.written
    · simp [expectNext, hv.expected]
    · have hm : ((s x.other).sent.map (·.out.content))[(s x).received.length]? = some c.out.content := by
        simp [hn]
      obtain ⟨hl, hm⟩ := List.getElem?_eq_some_iff.mp hm
      have hp := List.concat_get_prefix (h.prefixed x) hl
      rwa [List.get_eq_getElem, hm] at hp

theorem Invariant.step {s' : Session} (h : s.Invariant P) (hs : Step P s s') : s'.Invariant P := by
  cases hs
  case send x c hw =>
    have hv := (h.valid x).send hw
    obtain ⟨tcp, he, -⟩ | ⟨tcp, p, he, -⟩ := Endpoint.send_cases P (s x) c
    case inl =>
      rw [he] at hv ⊢
      exact h.update hv rfl List.prefix_rfl (h.prefixed x)
    case inr =>
      rw [he] at hv ⊢
      exact h.update hv rfl (List.prefix_append _ _) (h.prefixed x)
  case shut x _ _ | deliver x _ =>
    have hv := h.valid x
    exact h.update ⟨hv.sendSequence, hv.bounded, hv.wellFormed, hv.written, hv.expected⟩ rfl
      List.prefix_rfl (h.prefixed x)
  case receive hi => exact h.receive hi

theorem Reachable.invariant (h₀ : s₀.Initial) (h : Reachable P s₀ s) : s.Invariant P := by
  induction h
  case refl => exact h₀.invariant
  case tail hs hi => exact hi.step hs

-- A frame of the other side that carries the expected number is accepted.
theorem Invariant.accepts {frame rest : Bytes} {t : EncryptedTransport} (h : s.Invariant P)
    (hf : frame ∈ (s x.other).transport.tcp.written)
    (hn : frameSequence frame = (s x).transport.channel.expectedRecvSequence)
    (hc : t.channel = (s x).transport.channel) (ho : ¬t.isClosing) (hr : t.tcp.reader = frame ++ rest) :
    ∃ c, (s x.other).sent[(s x).received.length]? = some c ∧
      (receiveFrame P c.ad).run t =
        .ok c.out.content { t with tcp := { t.tcp with reader := rest } }.expectNext := by
  obtain ⟨i, c, hs, hi, p, hp, hsize, rfl⟩ := (h.valid x.other).written frame hf
  rw [frameSequence_wireFrame hi] at hn
  have hw := (h.valid x.other).wellFormed c (List.mem_of_getElem? hs)
  refine ⟨c, by rw [← (h.valid x).expected, ← hn, hs], ?_⟩
  rw [← h.mirrored x, ← hc] at hr
  rw [receiveFrame_run ho, resumeReceive_wireFrame hr (hc ▸ hn) hi hsize,
    Outgoing.decodePlaintext_inner hw hp]
  rfl

end Session

open Session EncryptedTransport in
theorem secure_channel_prefix {P : Primitives} {s₀ s : Session} (h₀ : s₀.Initial)
    (h : Reachable P s₀ s) (x : Side) :
    (s x).received <+: (s x.other).sent.map (·.out.content) ∧
    -- A frame that is rejected leaves the counters as they are,
    (∀ ad e t, s.Ideal P x ad →
      (receiveFrame P ad).run (s x).transport = .error e t ∨
        (resumeReceive P ad).run (s x).transport = .error e t →
      t.channel = (s x).transport.channel) ∧
    -- and with these counters the next frame of the other side is accepted.
    ∀ frame ∈ (s x.other).transport.tcp.written,
      frameSequence frame = (s x).transport.channel.expectedRecvSequence →
      ∀ t rest, t.channel = (s x).transport.channel → ¬t.isClosing → t.tcp.reader = frame ++ rest →
        ∃ c, (s x.other).sent[(s x).received.length]? = some c ∧
          (receiveFrame P c.ad).run t =
            .ok c.out.content { t with tcp := { t.tcp with reader := rest } }.expectNext := by
  have hi := h.invariant h₀
  refine ⟨hi.prefixed x, fun ad e t hideal he => ?_, fun frame hf hn t rest hc ho hr =>
    hi.accepts hf hn hc ho hr⟩
  have hrejected : ∀ {t}, (resumeReceive P ad).run (s x).transport = .error e t →
      t.channel = (s x).transport.channel := by
    intro t he
    obtain ⟨_, _, he', hc, -⟩ | ⟨_, _, he', -⟩ := hi.resumeReceive hideal <;> cases he.symm.trans he'
    exact hc
  obtain he | he := he
  case inr => exact hrejected he
  case inl =>
    by_cases ho : (s x).transport.isClosing
    case pos =>
      obtain ⟨_, he'⟩ := receiveFrame_run_closing P ad ho
      cases he.symm.trans he'
      rfl
    case neg => exact hrejected (receiveFrame_run ho ▸ he)

namespace Session.Reordered

-- The left side sends a chunk and an empty message. The network hands the second frame over, then the
-- first one twice, and the second one again.

theorem ones_length : (List.replicate 32 1 : Bytes).length = 32 := rfl

theorem twos_length : (List.replicate 32 2 : Bytes).length = 32 := rfl

def leftKeys : SessionKeys := ⟨List.replicate 32 1, List.replicate 32 2, ones_length, twos_length⟩

def rightKeys : SessionKeys := ⟨List.replicate 32 2, List.replicate 32 1, twos_length, ones_length⟩

def fresh : Session
  | .left  => { transport := { tcp := {}, channel := { sessionKeys := leftKeys } } }
  | .right => { transport := { tcp := {}, channel := { sessionKeys := rightKeys } } }

def chunk : Sent := ⟨.binary [7], []⟩

def hello : Sent := ⟨.message (.obj []), []⟩

-- The two plaintexts, `b"B\x07"` and `b"J\x7b\x7d"`
def plaintext : Nat → Bytes
  | 0 => [0x42, 7]
  | _ => [0x4A, 0x7B, 0x7D]

def frame (i : Nat) : Bytes :=
  EncryptedTransport.wireFrame .transparent leftKeys.sendKey i (plaintext i) []

def chunkSent : Session :=
  Function.update fresh .left ((fresh .left).send .transparent chunk)

def helloSent : Session :=
  Function.update chunkSent .left ((chunkSent .left).send .transparent hello)

def delivered : Nat → Session
  | 0     => Function.update helloSent .right ((helloSent .right).deliver (frame 1 ++ frame 0 ++ frame 0 ++ frame 1))
  | n + 1 => Function.update (delivered n) .right ((delivered n .right).receive .transparent [])

theorem delivered_left (n : Nat) : (delivered n .left).sent = [chunk, hello] ∧
    (delivered n .left).transport.channel.sessionKeys = leftKeys := by
  induction n
  case zero => exact ⟨rfl, rfl⟩
  case succ n hi => simpa [delivered] using hi

theorem fresh_initial : fresh.Initial := by
  constructor <;> intro x <;> cases x <;> simp [fresh, Side.other, leftKeys, rightKeys]

theorem ideal {n i : Nat} (hi : i < 2)
    (hk : (delivered n .right).transport.channel.sessionKeys.recvKey = leftKeys.sendKey)
    (hp : presented .transparent (delivered n .right).transport.tcp =
      some (i, SecureChannel.sealed .transparent (plaintext i) [] leftKeys.sendKey i)) :
    (delivered n).Ideal .transparent .right [] := by
  intro sequence ciphertext p hp' _
  cases hp.symm.trans hp'
  have ⟨hs, hl⟩ := delivered_left n
  rw [hk]
  obtain rfl | rfl : i = 0 ∨ i = 1 := by omega
  · exact ⟨.left, 0, chunk, plaintext 0, by rw [hs]; rfl, rfl, by rw [hl], rfl, rfl, rfl⟩
  · exact ⟨.left, 1, hello, plaintext 1, by rw [hs]; rfl, rfl, by rw [hl], rfl, rfl, rfl⟩

theorem reachable : Reachable .transparent fresh (delivered 4) := by
  have hreceive {n i : Nat} (hi : i < 2)
      (hk : (delivered n .right).transport.channel.sessionKeys.recvKey = leftKeys.sendKey)
      (hp : presented .transparent (delivered n .right).transport.tcp =
        some (i, SecureChannel.sealed .transparent (plaintext i) [] leftKeys.sendKey i)) :
      Step .transparent (delivered n) (delivered (n + 1)) :=
    .receive (ideal hi hk hp)
  have hchunk : Step .transparent fresh chunkSent := .send trivial
  have hhello : Step .transparent chunkSent helloSent := .send ⟨List.nodup_nil, trivial⟩
  have hdeliver : Step .transparent helloSent (delivered 0) := .deliver
  have h₀ := hreceive (n := 0) (i := 1) (by decide) (by decide +kernel) (by decide +kernel)
  have h₁ := hreceive (n := 1) (i := 0) (by decide) (by decide +kernel) (by decide +kernel)
  have h₂ := hreceive (n := 2) (i := 0) (by decide) (by decide +kernel) (by decide +kernel)
  have h₃ := hreceive (n := 3) (i := 1) (by decide) (by decide +kernel) (by decide +kernel)
  exact ((((((Relation.ReflTransGen.single hchunk).tail hhello).tail hdeliver).tail h₀).tail h₁).tail h₂).tail h₃

end Session.Reordered

open Session.Reordered in
theorem secure_channel_prefix_reordered :
    (delivered 4 .right).received.length = 2 ∧
    (delivered 4 .right).received <+: (delivered 4 .left).sent.map (·.out.content) := by
  have h := secure_channel_prefix fresh_initial reachable .right
  exact ⟨by decide +kernel, h.left⟩
