import Peerc.Handshake.System

namespace Handshake

variable {P : Primitives} {honest : Bytes → Prop} {s s' : System} {run run' : Run}
variable {delivered : Option Json} {signed : List (Bytes × Bytes)} {pk msg : Bytes}

-- What a run knows about its peer, on the evidence `signed`

-- The peer's fields name a device by the digest of its key.
structure Fields.Identifies (P : Primitives) (peer : Fields) (pk : Bytes) : Prop where
  publicKey : Bytes.fromHex peer.publicKey.val = some pk
  deviceId  : peer.deviceId.val = computeDeviceId P pk

theorem Presents.identifies {name : String} {cache : NonceCache} {now : Double} {m : Json}
    (h : Presents P name cache now m pk) : (Fields.ofMessage m).Identifies P pk := by
  have ⟨hk, hd⟩ := verifyDeviceIdentity_eq_ok.mp h.identity
  exact ⟨hk, hd.symm⟩

structure InitSent.Valid (P : Primitives) (st : InitSent) : Prop where
  init : ∃ nonce, st.init = initFields P st.party st.ephemeral nonce

structure FinishSent.Valid (P : Primitives) (honest : Bytes → Prop) (signed : List (Bytes × Bytes))
    (st : FinishSent) : Prop extends InitSent.Valid P st.toInitSent where
  accepted : ∃ pk respTranscript, st.response.Identifies P pk ∧
    computeResponderTranscript P st.init st.response = some respTranscript ∧
    computeInitiatorTranscript respTranscript st.signature.val = some st.transcript ∧
    (honest pk → (pk, respTranscript) ∈ signed)

structure ResponseSent.Valid (P : Primitives) (st : ResponseSent) : Prop where
  response   : ∃ nonce, st.response = responseFields P st.party st.ephemeral nonce
  peer       : st.init.Identifies P st.peerPubBytes
  transcript : computeResponderTranscript P st.init st.response = some st.transcript

structure ResponseSent.Completed (P : Primitives) (honest : Bytes → Prop)
    (signed : List (Bytes × Bytes)) (st : ResponseSent) (r : Result) : Prop where
  publicKey : r.peerPublicKey = st.init.publicKey
  deviceId  : r.peerDeviceId = st.init.deviceId
  secret    : sharedSecret P st.ephemeral st.init.ephemeralKey.val = .ok r.sharedSecret
  accepted  : ∃ transcript, computeInitiatorTranscript st.transcript st.mySignature.val =
    some transcript ∧ (honest st.peerPubBytes → (st.peerPubBytes, transcript) ∈ signed)

def Run.Valid (P : Primitives) (honest : Bytes → Prop) (signed : List (Bytes × Bytes)) : Run → Prop
  | initSent st         => st.Valid P
  | finishSent st       => st.Valid P honest signed
  | initiatorDone st r  => st.Valid P honest signed ∧ initiatorFinish P st = .ok r
  | awaitInit _         => True
  | responseSent st     => st.Valid P
  | responderDone st r  => st.Valid P ∧ st.Completed P honest signed r
  | failed last         => last.Valid P honest signed

theorem Run.Valid.mono {signed' : List (Bytes × Bytes)} (hs : ∀ e ∈ signed, e ∈ signed')
    (h : run.Valid P honest signed) : run.Valid P honest signed' := by
  have hf {st : FinishSent} (h : st.Valid P honest signed) : st.Valid P honest signed' := by
    have ⟨hi, pk, t, hp, hr, ht, he⟩ := h
    exact ⟨hi, pk, t, hp, hr, ht, fun hh => hs _ (he hh)⟩
  induction run
  case initSent => exact h
  case finishSent => exact hf h
  case initiatorDone => exact ⟨hf h.left, h.right⟩
  case awaitInit => trivial
  case responseSent => exact h
  case responderDone =>
    have ⟨hv, hk, hd, hx, t, ht, he⟩ := h
    exact ⟨hv, hk, hd, hx, t, ht, fun hh => hs _ (he hh)⟩
  case failed hi => exact hi h

-- Every message that a device has signed

inductive Origin (P : Primitives) (s : System) (pk msg : Bytes) : Prop
  | response {i : Nat} {run : Run} {st : ResponseSent} (current : s.runs i = some run)
    (response : run.response? = some st) (key : st.party.identity.publicKeyBytes P = pk)
    (transcript : computeResponderTranscript P st.init st.response = some msg)
  | accepted {i : Nat} {run : Run} {st : FinishSent} {respTranscript : Bytes}
    (current : s.runs i = some run) (accepted : run.accepted? = some st)
    (key : st.party.identity.publicKeyBytes P = pk)
    (responder : computeResponderTranscript P st.init st.response = some respTranscript)
    (transcript : computeInitiatorTranscript respTranscript st.signature.val = some msg)
  | rotation {cert : TransitionCertificate} (payload : cert.payload = some msg)

structure Invariant (P : Primitives) (honest : Bytes → Prop) (s : System) : Prop where
  valid  : ∀ {i run}, s.runs i = some run → run.Valid P honest s.signed
  origin : ∀ {pk msg}, (pk, msg) ∈ s.signed → Origin P s pk msg

theorem initiatorSign_valid {st : InitSent} {st' : FinishSent} {m : Json} {dec : TrustDecision}
    {name : String} {cache : NonceCache} {now : Double} (hi : st.Valid P)
    (hp : Presents P name cache now m pk) (hs : initiatorSign P st m pk dec = .ok st')
    (hu : s.Unforged P honest m) : st'.Valid P honest s.signed := by
  obtain ⟨t, t', ha, rfl⟩ := initiatorSign_eq_ok.mp hs
  obtain ⟨sig, hx, hv⟩ := ha.signature
  exact ⟨hi, pk, t, hp.identifies, ha.responder, ha.initiator, fun hh => hu pk sig t hh hx hv⟩

theorem responderSign_valid {party : Party} {ephemeral nonce : Bytes} {st : ResponseSent} {m : Json}
    {dec : TrustDecision} {name : String} {cache : NonceCache} {now : Double}
    (hp : Presents P name cache now m pk)
    (hs : responderSign P party ephemeral nonce m pk dec = .ok st) : st.Valid P := by
  obtain ⟨t, ht, rfl⟩ := responderSign_eq_ok.mp hs
  exact ⟨⟨nonce, rfl⟩, hp.identifies, ht⟩

theorem Run.Step.valid (h : Run.Step P run delivered signed run')
    (hu : ∀ m ∈ delivered, s.Unforged P honest m) (hv : run.Valid P honest s.signed) :
    run'.Valid P honest s.signed := by
  cases h
  case onResponse m now frame sh sh' _ ha =>
    obtain ⟨pub, dec, ha, hr⟩ := initiatorOnResponse_eq_ok.mp ha
    exact initiatorSign_valid hv (checkPeer_eq_ok ha).left (initiatorReply_eq_ok.mp hr).left (hu m rfl)
  case finishUnsent m now pub dec sh sh' _ ha hs =>
    exact initiatorSign_valid hv (checkPeer_eq_ok ha).left hs (hu m rfl)
  case finish hf => exact ⟨hv, hf⟩
  case onInit ha =>
    obtain ⟨pub, dec, ha, hr⟩ := responderOnInit_eq_ok.mp ha
    exact responderSign_valid (checkPeer_eq_ok ha).left (responderReply_eq_ok.mp hr).left
  case responseUnsent ha hs => exact responderSign_valid (checkPeer_eq_ok ha).left hs
  case onFinish m r _ hf =>
    obtain ⟨-, t, secret, hash, ht, -, ⟨sig, hx, hs⟩, he, -, rfl⟩ := responderOnFinish_eq_ok.mp hf
    exact ⟨hv, rfl, rfl, he, t, ht, fun hh => hu m rfl _ sig t hh hx hs⟩
  case fail => exact hv

-- What a run has accepted stays on record.

theorem Run.Step.response? {st : ResponseSent} (h : Run.Step P run delivered signed run')
    (hr : run.response? = some st) : run'.response? = some st := by
  cases h <;> first | exact hr | cases hr

theorem Run.Step.accepted? {st : FinishSent} (h : Run.Step P run delivered signed run')
    (hr : run.accepted? = some st) : run'.accepted? = some st := by
  cases h <;> first | exact hr | cases hr

-- A step of a run signs at most the transcript it has just accepted.
theorem Run.Step.origin {i : Nat} (h : Run.Step P run delivered signed run')
    (hc : s'.runs i = some run') (hs : (pk, msg) ∈ signed) : Origin P s' pk msg := by
  cases h
  case onResponse ha =>
    obtain ⟨pub, dec, -, hr⟩ := initiatorOnResponse_eq_ok.mp ha
    obtain ⟨t, t', hs', rfl⟩ := initiatorSign_eq_ok.mp (initiatorReply_eq_ok.mp hr).left
    cases List.mem_singleton.mp hs
    exact .accepted hc rfl rfl hs'.responder hs'.initiator
  case finishUnsent hr =>
    obtain ⟨t, t', ha, rfl⟩ := initiatorSign_eq_ok.mp hr
    cases List.mem_singleton.mp hs
    exact .accepted hc rfl rfl ha.responder ha.initiator
  case onInit ha =>
    obtain ⟨pub, dec, -, hr⟩ := responderOnInit_eq_ok.mp ha
    obtain ⟨t, ht, rfl⟩ := responderSign_eq_ok.mp (responderReply_eq_ok.mp hr).left
    cases List.mem_singleton.mp hs
    exact .response hc rfl rfl ht
  case responseUnsent hr =>
    obtain ⟨t, ht, rfl⟩ := responderSign_eq_ok.mp hr
    cases List.mem_singleton.mp hs
    exact .response hc rfl rfl ht
  all_goals cases hs

-- A system step either leaves a run in place or steps it.
theorem System.Step.runs {i : Nat} (h : s.Step P honest s') (hr : s.runs i = some run) :
    ∃ run', s'.runs i = some run' ∧
      (∀ st, run.response? = some st → run'.response? = some st) ∧
      (∀ st, run.accepted? = some st → run'.accepted? = some st) := by
  have hkeep : ∃ run', some run = some run' ∧
      (∀ st, run.response? = some st → run'.response? = some st) ∧
      (∀ st, run.accepted? = some st → run'.accepted? = some st) :=
    ⟨run, rfl, fun _ => id, fun _ => id⟩
  cases h
  case rotate => exact hr ▸ hkeep
  case initiate j _ _ _ _ _ _ hf _ | respond j _ hf =>
    have hne : i ≠ j := fun he => nomatch (he ▸ hf).symm.trans hr
    simpa only [Function.update_of_ne hne, hr] using hkeep
  case run j run₁ run₂ _ _ hc _ hs =>
    by_cases he : i = j
    case pos =>
      subst he
      cases hc.symm.trans hr
      exact ⟨run₂, Function.update_self .., fun _ => hs.response?, fun _ => hs.accepted?⟩
    case neg => simpa only [Function.update_of_ne he, hr] using hkeep

theorem Origin.mono (hs : s.Step P honest s') (h : Origin P s pk msg) : Origin P s' pk msg := by
  cases h
  case response hc hr hk ht =>
    have ⟨_, hc, hr', _⟩ := hs.runs hc
    exact .response hc (hr' _ hr) hk ht
  case accepted hc ha hk hr ht =>
    have ⟨_, hc, _, ha'⟩ := hs.runs hc
    exact .accepted hc (ha' _ ha) hk hr ht
  case rotation hp => exact .rotation hp

theorem forall_update {runs : Nat → Option Run} {Q : Run → Prop} {j : Nat}
    {i : Nat} (h : Function.update runs j (some run') i = some run)
    (hold : ∀ {i run}, runs i = some run → Q run) (hnew : Q run') : Q run := by
  by_cases he : i = j
  case pos =>
    subst he
    cases (Function.update_self ..).symm.trans h
    exact hnew
  case neg => exact hold ((Function.update_of_ne he ..).symm.trans h)

theorem Invariant.step (hs : s.Step P honest s') (h : Invariant P honest s) :
    Invariant P honest s' := by
  have hsub : ∀ e ∈ s.signed, e ∈ s'.signed := by
    cases hs <;> simp +contextual
  have hmono {i run} (hr : s.runs i = some run) : run.Valid P honest s'.signed :=
    (h.valid hr).mono hsub
  have hold {pk msg} (he : (pk, msg) ∈ s.signed) : Origin P s' pk msg := (h.origin he).mono hs
  cases hs
  case initiate st _ _ hst =>
    cases initiatorStart_eq_ok hst
    exact ⟨fun hr => forall_update hr hmono ⟨_, rfl⟩, hold⟩
  case respond => exact ⟨fun hr => forall_update hr hmono trivial, hold⟩
  case run hc hu hst =>
    refine ⟨fun hr => forall_update hr hmono ((hst.valid hu (h.valid hc)).mono hsub), fun he => ?_⟩
    rcases List.mem_append.mp he with he | he
    · exact hst.origin (Function.update_self ..) he
    · exact hold he
  case rotate hcert hp =>
    refine ⟨hmono, fun he => ?_⟩
    rcases List.mem_cons.mp he with he | he
    · cases he
      exact .rotation hp
    · exact hold he

theorem Invariant.reachable (h : System.Reachable P honest s) : Invariant P honest s := by
  induction h
  case refl => exact ⟨nofun, nofun⟩
  case tail hs hi => exact hi.step hs

theorem Run.Valid.accepted? {st : FinishSent} (h : run.Valid P honest signed)
    (ha : run.accepted? = some st) : st.Valid P honest signed := by
  induction run
  case finishSent => exact Option.some.inj ha ▸ h
  case initiatorDone => exact Option.some.inj ha ▸ h.left
  case failed hi => exact hi h ha
  all_goals cases ha

theorem Run.Valid.response? {st : ResponseSent} (h : run.Valid P honest signed)
    (hr : run.response? = some st) : st.Valid P := by
  induction run
  case responseSent => exact Option.some.inj hr ▸ h
  case responderDone => exact Option.some.inj hr ▸ h.left
  case failed hi => exact hi h hr
  all_goals cases hr

-- The two ends of one handshake: the response that the initiator has accepted is the one that the
-- responder has made, to the init that the initiator has sent.
structure Matches (st : FinishSent) (rs : ResponseSent) : Prop where
  init     : st.init = rs.init
  response : st.response = rs.response

-- The secret of the result is the one of the own private and the peer's public ephemeral key.
def Result.SharedWith (P : Primitives) (r : Result) (ephemeral peerEphemeral : Bytes) : Prop :=
  P.x25519.exchange ephemeral (P.x25519.publicKey peerEphemeral) = some r.sharedSecret

structure Agreement (P : Primitives) (honest : Bytes → Prop) (s : System) : Prop where
  initiator : ∀ {i st r}, s.runs i = some (.initiatorDone st r) →
    ∃ pk, Bytes.fromHex r.peerPublicKey.val = some pk ∧ r.peerDeviceId.val = computeDeviceId P pk ∧
      (honest pk → ∃ j run rs, s.runs j = some run ∧ run.response? = some rs ∧
        rs.party.identity.publicKeyBytes P = pk ∧ Matches st rs ∧
        r.SharedWith P st.ephemeral rs.ephemeral ∧
        ∀ r', run = .responderDone rs r' → r'.SharedWith P rs.ephemeral st.ephemeral)
  responder : ∀ {j rs r}, s.runs j = some (.responderDone rs r) →
    ∃ pk, Bytes.fromHex r.peerPublicKey.val = some pk ∧ r.peerDeviceId.val = computeDeviceId P pk ∧
      (honest pk → ∃ i run st, s.runs i = some run ∧ run.accepted? = some st ∧
        st.party.identity.publicKeyBytes P = pk ∧ Matches st rs ∧ st.signature = rs.mySignature ∧
        r.SharedWith P rs.ephemeral st.ephemeral ∧
        ∀ r', run = .initiatorDone st r' → r'.SharedWith P st.ephemeral rs.ephemeral)

theorem sharedSecret_hexText {ephemeral peer : Bytes} {secret : Bytes}
    (h : sharedSecret P ephemeral (P.x25519.publicKey peer).hexText.val = .ok secret) :
    P.x25519.exchange ephemeral (P.x25519.publicKey peer) = some secret := by
  obtain ⟨raw, hr, -, he⟩ := sharedSecret_eq_ok.mp h
  cases (Bytes.fromHex_hex _).symm.trans hr
  exact he

theorem Matches.initiator_secret {st : FinishSent} {rs : ResponseSent} {r : Result}
    (h : Matches st rs) (hv : rs.Valid P) (hf : initiatorFinish P st = .ok r) :
    r.SharedWith P st.ephemeral rs.ephemeral := by
  obtain ⟨secret, hash, hs, -, rfl⟩ := initiatorFinish_eq_ok.mp hf
  obtain ⟨nonce, hr⟩ := hv.response
  rw [h.response, hr] at hs
  exact sharedSecret_hexText hs

theorem Matches.responder_secret {st : FinishSent} {rs : ResponseSent} {r : Result}
    (h : Matches st rs) (hv : InitSent.Valid P st.toInitSent) (hc : rs.Completed P honest signed r) :
    r.SharedWith P rs.ephemeral st.ephemeral := by
  obtain ⟨nonce, hi⟩ := hv.init
  have hs := hc.secret
  rw [← h.init, hi] at hs
  exact sharedSecret_hexText hs

theorem Invariant.agreement_initiator {i : Nat} {st : FinishSent} {r : Result}
    (h : Invariant P honest s) (hr : s.runs i = some (.initiatorDone st r)) :
    ∃ pk, Bytes.fromHex r.peerPublicKey.val = some pk ∧ r.peerDeviceId.val = computeDeviceId P pk ∧
      (honest pk → ∃ j run rs, s.runs j = some run ∧ run.response? = some rs ∧
        rs.party.identity.publicKeyBytes P = pk ∧ Matches st rs ∧
        r.SharedWith P st.ephemeral rs.ephemeral ∧
        ∀ r', run = .responderDone rs r' → r'.SharedWith P rs.ephemeral st.ephemeral) := by
  have ⟨hv, hf⟩ := h.valid hr
  obtain ⟨pk, t, hp, ht, ht', he⟩ := hv.accepted
  have ⟨hk, hd⟩ : r.peerPublicKey = st.response.publicKey ∧ r.peerDeviceId = st.response.deviceId := by
    obtain ⟨_, _, -, -, rfl⟩ := initiatorFinish_eq_ok.mp hf
    exact ⟨rfl, rfl⟩
  refine ⟨pk, hk ▸ hp.publicKey, hd ▸ hp.deviceId, fun hh => ?_⟩
  -- The signature under the transcript can only be the one of a response.
  cases h.origin (he hh)
  case accepted hm => exact (responder_ne_initiator ht hm).elim
  case rotation hm => exact (responder_ne_rotation ht hm).elim
  case response j run rs hc hrs hkey hm =>
    have ⟨hi, hresp⟩ := computeResponderTranscript_inj ht hm
    have hmatch : Matches st rs := ⟨hi, hresp⟩
    have hrv := (h.valid hc).response? hrs
    refine ⟨j, run, rs, hc, hrs, hkey, hmatch, hmatch.initiator_secret hrv hf, ?_⟩
    rintro r' rfl
    exact hmatch.responder_secret hv.toValid (h.valid hc).right

theorem Invariant.agreement_responder {j : Nat} {rs : ResponseSent} {r : Result}
    (h : Invariant P honest s) (hr : s.runs j = some (.responderDone rs r)) :
    ∃ pk, Bytes.fromHex r.peerPublicKey.val = some pk ∧ r.peerDeviceId.val = computeDeviceId P pk ∧
      (honest pk → ∃ i run st, s.runs i = some run ∧ run.accepted? = some st ∧
        st.party.identity.publicKeyBytes P = pk ∧ Matches st rs ∧ st.signature = rs.mySignature ∧
        r.SharedWith P rs.ephemeral st.ephemeral ∧
        ∀ r', run = .initiatorDone st r' → r'.SharedWith P st.ephemeral rs.ephemeral) := by
  have ⟨hv, hcomp⟩ := h.valid hr
  obtain ⟨t, ht, he⟩ := hcomp.accepted
  refine ⟨rs.peerPubBytes, hcomp.publicKey ▸ hv.peer.publicKey, hcomp.deviceId ▸ hv.peer.deviceId,
    fun hh => ?_⟩
  cases h.origin (he hh)
  case response hm => exact (responder_ne_initiator hm ht).elim
  case rotation hm => exact (initiator_ne_rotation ht hm).elim
  case accepted i run st respTranscript hc ha hkey hrt hm =>
    have ⟨hi, hresp, hsig⟩ := computeInitiatorTranscript_inj hrt hv.transcript hm ht
    have hmatch : Matches st rs := ⟨hi, hresp⟩
    have hsv := (h.valid hc).accepted? ha
    refine ⟨i, run, st, hc, ha, hkey, hmatch, Subtype.ext hsig,
      hmatch.responder_secret hsv.toValid hcomp, ?_⟩
    rintro r' rfl
    exact hmatch.initiator_secret hv (h.valid hc).right

theorem handshake_agreement (P : Primitives) (honest : Bytes → Prop) (s : System)
    (h : System.Reachable P honest s) : Agreement P honest s :=
  have hi := Invariant.reachable h
  ⟨hi.agreement_initiator, hi.agreement_responder⟩

-- Two honest devices complete a handshake. A signature is the key followed by the message; the messages that
-- occur are abridged to one byte.

namespace Agreement

def abridge (book : List Bytes) (m : Bytes) : Bytes :=
  if m ∈ book then [UInt8.ofNat (book.idxOf m)] else 0 :: 0 :: m

theorem abridge_injective {book : List Bytes} (h : book.length ≤ 256) :
    Function.Injective (abridge book) := by
  intro m m' hm
  by_cases h₁ : m ∈ book <;> by_cases h₂ : m' ∈ book <;>
    simp only [abridge, h₁, h₂, if_true, if_false] at hm
  case pos =>
    have l₁ := List.idxOf_lt_length_iff.mpr h₁
    have l₂ := List.idxOf_lt_length_iff.mpr h₂
    have hi := congrArg UInt8.toNat (List.cons.inj hm).left
    simp only [UInt8.toNat_ofNat'] at hi
    exact (List.idxOf_inj h₁).mp (by omega)
  all_goals simp_all

def scheme (book : List Bytes) : SignatureScheme where
  publicKey       := SignatureScheme.transparent.publicKey
  sign sk m       := SignatureScheme.transparent.publicKey sk ++ abridge book m
  verify pk sig m := sig = pk ++ abridge book m
  publicKey_length := SignatureScheme.transparent.publicKey_length
  verify_sign := by simp

def aliceKey : Bytes := List.replicate 32 1

def bobKey : Bytes := List.replicate 32 2

def carolKey : Bytes := List.replicate 32 3

def honestKeys (pk : Bytes) : Prop :=
  pk = aliceKey ∨ pk = bobKey

def device (key : Bytes) : Party := ⟨⟨key⟩, .ofString "peer"⟩

def init (key : Bytes) : Fields := initFields .transparent (device key) [3] [5]

def response : Fields := responseFields .transparent (device bobKey) [4] [6]

-- A signature of the message number `n`
def signature (key : Bytes) (n : UInt8) : Text := Bytes.hexText (key ++ [n])

def respTranscript (key : Bytes) : Bytes :=
  (computeResponderTranscript .transparent (init key) response).getD []

def initTranscript (key : Bytes) (n : UInt8) : Bytes :=
  (computeInitiatorTranscript (respTranscript key) (signature bobKey n).val).getD []

def prims : Primitives :=
  { Primitives.transparent with ed25519 := scheme [respTranscript aliceKey, initTranscript aliceKey 0,
      respTranscript carolKey, initTranscript carolKey 2] }

def initMsg (key : Bytes) : Json :=
  let init := init key
  Protocol.makeHandshakeInit init.deviceId init.publicKey init.ephemeralKey init.nonce init.senderName
    .zero

def respMsg : Json :=
  Protocol.makeHandshakeResponse response.deviceId response.publicKey response.ephemeralKey
    response.nonce response.senderName (signature bobKey 0) .zero

def finishMsg (key : Bytes) (n : UInt8) : Json :=
  Protocol.makeHandshakeFinish (signature key n) .zero

def clocks : Clocks := ⟨.zero, .zero, .zero⟩

def shared : Shared := ⟨none, ⟨NonceCache.defaultTtl, []⟩⟩

def initSent : InitSent := ⟨device aliceKey, [3], init aliceKey⟩

def responseSent : ResponseSent :=
  ⟨device bobKey, [4], init aliceKey, response, aliceKey, respTranscript aliceKey, signature bobKey 0,
    .unknown⟩

def finishSent : FinishSent :=
  ⟨initSent, response, signature bobKey 0, initTranscript aliceKey 0, signature aliceKey 1, .unknown⟩

-- A message is read back from its frame.
theorem awaitFrame_encodeJson (name : String) {m : Json} (hw : m.WellFormed)
    (h : (Protocol.encodeJson prims m).isSome) :
    awaitFrame prims name (.payload ((Protocol.encodeJson prims m).getD [])) = .ok m := by
  rw [← Option.get_eq_getD (h := h)]
  simp only [awaitFrame, Protocol.decodeJson_encodeJson hw (Option.some_get h).symm]

theorem initMsg_wellFormed (key : Bytes) : (initMsg key).WellFormed := by
  refine ⟨?_, trivial, trivial, trivial, trivial, trivial, trivial, trivial, Json.zero_wellFormed, trivial⟩
  simp only [List.map_cons, List.map_nil]
  decide

theorem respMsg_wellFormed : respMsg.WellFormed := by
  refine ⟨?_, trivial, trivial, trivial, trivial, trivial, trivial, trivial, trivial, Json.zero_wellFormed,
    trivial⟩
  simp only [List.map_cons, List.map_nil]
  decide

theorem finishMsg_wellFormed (key : Bytes) (n : UInt8) : (finishMsg key n).WellFormed := by
  refine ⟨?_, trivial, trivial, trivial, Json.zero_wellFormed, trivial⟩
  simp only [List.map_cons, List.map_nil]
  decide

def returns {α : Type} [DecidableEq α] (a : α) : EStateM.Result Failure Shared (α × Bytes) → Bool
  | .ok (b, _) _ => b = a
  | .error ..    => false

theorem exists_of_returns {α : Type} [DecidableEq α] {a : α}
    {x : EStateM.Result Failure Shared (α × Bytes)} (h : returns a x) :
    ∃ frame sh, x = .ok (a, frame) sh := by
  match x, h with
  | .ok (b, frame) sh, h => exact ⟨frame, sh, by rw [of_decide_eq_true h]⟩

theorem exists_ok {α : Type} {x : Except Failure α} (h : x.toBool) : ∃ a, x = .ok a := by
  match x, h with
  | .ok a, _ => exact ⟨a, rfl⟩

theorem unforged {s : System} {m : Json} {pk msg : Bytes} (hl : pk.length = 32)
    (hs : (pk, msg) ∈ s.signed)
    (h : Bytes.fromHex (m.text "signature").val = some (pk ++ abridge [respTranscript aliceKey,
      initTranscript aliceKey 0, respTranscript carolKey, initTranscript carolKey 2] msg)) :
    s.Unforged prims honestKeys m := by
  intro pk' sig msg' hh hx hv
  cases h.symm.trans hx
  have hlen : pk.length = pk'.length := by
    rcases hh with rfl | rfl <;> exact hl
  have ⟨hk, hm⟩ := List.append_inj (of_decide_eq_true hv) hlen
  exact hk ▸ abridge_injective (by simp) hm ▸ hs

-- The first message carries no signature.
theorem unforged_init {s : System} : s.Unforged prims honestKeys (initMsg aliceKey) := by
  intro pk sig msg hh hx hv
  have hs : sig = [] := (Option.some.inj (show some [] = some sig from hx)).symm
  have he : sig = pk ++ _ := of_decide_eq_true hv
  rw [hs] at he
  have := (List.append_eq_nil_iff.mp he.symm).left
  rcases hh with rfl | rfl <;> cases this

theorem unforged_resp {s : System}
    (hs : ((device bobKey).identity.publicKeyBytes prims, responseSent.transcript) ∈ s.signed) :
    s.Unforged prims honestKeys respMsg :=
  unforged (prims.ed25519.publicKey_length _) hs (by decide +kernel)

theorem unforged_finish {s : System}
    (hs : ((device aliceKey).identity.publicKeyBytes prims, finishSent.transcript) ∈ s.signed) :
    s.Unforged prims honestKeys (finishMsg aliceKey 1) :=
  unforged (prims.ed25519.publicKey_length _) hs (by decide +kernel)

end Agreement

open Agreement in
theorem handshake_agreement_completed :
    ∃ s r r', System.Reachable prims honestKeys s ∧
      s.runs 0 = some (.initiatorDone finishSent r) ∧
      s.runs 1 = some (.responderDone responseSent r') ∧
      honestKeys ((device aliceKey).identity.publicKeyBytes prims) ∧
      honestKeys ((device bobKey).identity.publicKeyBytes prims) ∧ Agreement prims honestKeys s := by
  have hread₁ := awaitFrame_encodeJson "handshake_init" (initMsg_wellFormed aliceKey)
    (by decide +kernel)
  have hread₂ := awaitFrame_encodeJson "handshake_response" respMsg_wellFormed (by decide +kernel)
  have hread₃ := awaitFrame_encodeJson "handshake_finish" (finishMsg_wellFormed aliceKey 1)
    (by decide +kernel)
  obtain ⟨frame, hstart⟩ : ∃ frame,
      initiatorStart prims (device aliceKey) [3] [5] .zero = .ok (initSent, frame) := by
    obtain ⟨⟨st, frame⟩, h⟩ := exists_ok (x := initiatorStart prims (device aliceKey) [3] [5] .zero)
      (by decide +kernel)
    exact ⟨frame, h ▸ initiatorStart_eq_ok h ▸ rfl⟩
  obtain ⟨_, _, hresp⟩ : ∃ frame sh, (responderOnInit prims (device bobKey) [4] [6] (initMsg aliceKey)
      clocks).run shared = .ok (responseSent, frame) sh :=
    exists_of_returns (by decide +kernel)
  obtain ⟨_, _, hacc⟩ : ∃ frame sh,
      (initiatorOnResponse prims initSent respMsg clocks).run shared = .ok (finishSent, frame) sh :=
    exists_of_returns (by decide +kernel)
  obtain ⟨r, hfin⟩ : ∃ r, initiatorFinish prims finishSent = .ok r := exists_ok (by decide +kernel)
  obtain ⟨r', hdone⟩ : ∃ r, responderOnFinish prims responseSent (finishMsg aliceKey 1) = .ok r :=
    exists_ok (by decide +kernel)
  have h₁ : System.Reachable prims honestKeys _ := .tail .refl (.initiate (i := 0) rfl hstart)
  have h₂ : System.Reachable prims honestKeys _ :=
    h₁.tail (@System.Step.respond _ _ _ 1 (device bobKey) rfl)
  have h₃ : System.Reachable prims honestKeys _ := h₂.tail <| .run (i := 1) rfl
    (fun _ hm => Option.some.inj hm ▸ unforged_init) (.onInit hread₁ hresp)
  have h₄ : System.Reachable prims honestKeys _ := h₃.tail <| .run (i := 0) rfl
    (fun _ hm => Option.some.inj hm ▸ unforged_resp (.head _)) (.onResponse hread₂ hacc)
  have h₅ : System.Reachable prims honestKeys _ := h₄.tail <| .run (i := 0) rfl
    (by rintro _ ⟨⟩) (.finish hfin)
  have h₆ : System.Reachable prims honestKeys _ := h₅.tail <| .run (i := 1) rfl
    (fun _ hm => Option.some.inj hm ▸ unforged_finish (.head _)) (.onFinish hread₃ hdone)
  exact ⟨_, r, r', h₆, rfl, rfl, .inl rfl, .inr rfl, handshake_agreement _ _ _ h₆⟩

end Handshake
