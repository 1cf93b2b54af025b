import Mathlib.Logic.Function.Basic
import Mathlib.Logic.Relation
import Peerc.Handshake.Perform
import Peerc.Handshake.Theorems.Transcript

-- Any number of handshakes over a network that an adversary controls

namespace Handshake

-- A run of either role, suspended at one of its `await`s, completed or failed. A failed run is kept with
-- the last state it was in.
inductive Run
  | initSent (st : InitSent)
  | finishSent (st : FinishSent)
  | initiatorDone (st : FinishSent) (r : Result)
  | awaitInit (party : Party)
  | responseSent (st : ResponseSent)
  | responderDone (st : ResponseSent) (r : Result)
  | failed (last : Run)

namespace Run

-- The response that a responder has accepted an init with
def response? : Run → Option ResponseSent
  | responseSent st    => some st
  | responderDone st _ => some st
  | failed last        => last.response?
  | _                  => none

-- The response that an initiator has accepted
def accepted? : Run → Option FinishSent
  | finishSent st      => some st
  | initiatorDone st _ => some st
  | failed last        => last.accepted?
  | _                  => none

def active : Run → Bool
  | initiatorDone .. | responderDone .. | failed _ => false
  | _                                              => true

-- One step of a run, with the message it takes from the network and what its device signs. The trust store
-- and the nonce cache are the ones it finds when it is resumed: other runs and the user change them as
-- they like.
inductive Step (P : Primitives) :
    Run → (delivered : Option Json) → (signed : List (Bytes × Bytes)) → Run → Prop
  | onResponse {st : InitSent} {st' : FinishSent} {outcome m now frame} {sh sh' : Shared}
    (read : awaitFrame P "handshake_response" outcome = .ok m)
    (accept : (initiatorOnResponse P st m now).run sh = .ok (st', frame) sh') :
    Step P (initSent st) m [(st.party.identity.publicKeyBytes P, st'.transcript)] (finishSent st')
  -- The finish was signed, and raised when it was sent.
  | finishUnsent {st : InitSent} {st' : FinishSent} {outcome m now pub dec} {sh sh' : Shared}
    (read : awaitFrame P "handshake_response" outcome = .ok m)
    (check : (checkPeer P "handshake_response" "responder" m now).run sh = .ok (pub, dec) sh')
    (sign : initiatorSign P st m pub dec = .ok st') :
    Step P (initSent st) m [(st.party.identity.publicKeyBytes P, st'.transcript)]
      (failed (finishSent st'))
  | finish {st : FinishSent} {r : Result} (finish : initiatorFinish P st = .ok r) :
    Step P (finishSent st) none [] (initiatorDone st r)
  | onInit {party : Party} {ephemeral nonce : Bytes} {st : ResponseSent} {outcome m now frame}
    {sh sh' : Shared} (read : awaitFrame P "handshake_init" outcome = .ok m)
    (accept : (responderOnInit P party ephemeral nonce m now).run sh = .ok (st, frame) sh') :
    Step P (awaitInit party) m [(party.identity.publicKeyBytes P, st.transcript)] (responseSent st)
  -- The response was signed, and raised when it was sent.
  | responseUnsent {party : Party} {ephemeral nonce : Bytes} {st : ResponseSent}
    {outcome m now pub dec} {sh sh' : Shared}
    (read : awaitFrame P "handshake_init" outcome = .ok m)
    (check : (checkPeer P "handshake_init" "initiator" m now).run sh = .ok (pub, dec) sh')
    (sign : responderSign P party ephemeral nonce m pub dec = .ok st) :
    Step P (awaitInit party) m [(party.identity.publicKeyBytes P, st.transcript)]
      (failed (responseSent st))
  | onFinish {st : ResponseSent} {outcome m} {r : Result}
    (read : awaitFrame P "handshake_finish" outcome = .ok m)
    (finish : responderOnFinish P st m = .ok r) :
    Step P (responseSent st) m [] (responderDone st r)
  | fail {run : Run} (active : run.active) : Step P run none [] (failed run)

end Run

-- The two functions of the source take these steps when they return.

theorem performHandshakeInitiator_steps {P : Primitives} {party : Party} {env : Env} {sh sh' : Shared}
    {r : Result} (h : (performHandshakeInitiator P party env).run sh = .ok r sh') :
    ∃ st st' frame m signed, initiatorStart P party env.ephemeral env.nonce env.start = .ok (st, frame) ∧
      Run.Step P (.initSent st) (some m) signed (.finishSent st') ∧
      Run.Step P (.finishSent st') none [] (.initiatorDone st' r) := by
  rw [performHandshakeInitiator_eq, run_bind_eq_ok] at h
  obtain ⟨⟨st, frame⟩, _, hs, h⟩ := h
  obtain ⟨m, pub, dec, store, ⟨st', frame'⟩, ha, hreply, hfin, -⟩ := Script.perform_eq_ok h
  obtain ⟨_, -, hread⟩ := Except.bind_eq_ok.mp ha.read
  obtain ⟨_, -, hfin⟩ := Except.bind_eq_ok.mp hfin
  obtain ⟨cache, hadmit⟩ := ha.run
  exact ⟨st, st', frame, m, _, (liftExcept_eq_ok.mp hs).left,
    .onResponse hread (initiatorOnResponse_eq_ok.mpr ⟨pub, dec, hadmit, hreply⟩), .finish hfin⟩

theorem performHandshakeResponder_steps {P : Primitives} {party : Party} {env : Env} {sh sh' : Shared}
    {r : Result} (h : (performHandshakeResponder P party env).run sh = .ok r sh') :
    ∃ st m m' signed, Run.Step P (.awaitInit party) (some m) signed (.responseSent st) ∧
      Run.Step P (.responseSent st) (some m') [] (.responderDone st r) := by
  rw [performHandshakeResponder_eq] at h
  obtain ⟨m, pub, dec, store, ⟨st, frame⟩, ha, hreply, hfin, -⟩ := Script.perform_eq_ok h
  obtain ⟨_, -, hfin⟩ := Except.bind_eq_ok.mp hfin
  obtain ⟨m', hread', hfin⟩ := Except.bind_eq_ok.mp hfin
  obtain ⟨cache, hadmit⟩ := ha.run
  exact ⟨st, m, m', _, .onInit ha.read (responderOnInit_eq_ok.mpr ⟨pub, dec, hadmit, hreply⟩),
    .onFinish hread' hfin⟩

-- `signed` lists the public keys and messages for which a device has made a signature.
structure System where
  runs   : Nat → Option Run
  signed : List (Bytes × Bytes)

namespace System

def initial : System where
  runs _ := none
  signed := []

-- Ed25519 is unforgeable: a signature that is delivered and verifies under the key of an honest device was
-- made for that message. The adversary signs with every other key as it likes.
def Unforged (P : Primitives) (honest : Bytes → Prop) (s : System) (m : Json) : Prop :=
  ∀ pk sig msg, honest pk → Bytes.fromHex (m.text "signature").val = some sig →
    P.ed25519.verify pk sig msg → (pk, msg) ∈ s.signed

inductive Step (P : Primitives) (honest : Bytes → Prop) (s : System) : System → Prop
  | initiate {i : Nat} {party ephemeral nonce now st frame} (fresh : s.runs i = none)
    (start : initiatorStart P party ephemeral nonce now = .ok (st, frame)) :
    Step P honest s { s with runs := Function.update s.runs i (some (.initSent st)) }
  | respond {i : Nat} {party : Party} (fresh : s.runs i = none) :
    Step P honest s { s with runs := Function.update s.runs i (some (.awaitInit party)) }
  | run {i : Nat} {run run' : Run} {delivered : Option Json} {signed}
    (current : s.runs i = some run) (unforged : ∀ m ∈ delivered, s.Unforged P honest m)
    (step : Run.Step P run delivered signed run') :
    Step P honest s ⟨Function.update s.runs i (some run'), signed ++ s.signed⟩
  -- The only other use of a device's key
  | rotate {old new : DeviceKeypair} {ts : Double} {cert : TransitionCertificate} {payload : Bytes}
    (create : createTransitionCertificate P old new ts = .ok cert)
    (signs : cert.payload = some payload) :
    Step P honest s { s with signed := (old.publicKeyBytes P, payload) :: s.signed }

abbrev Reachable (P : Primitives) (honest : Bytes → Prop) : System → Prop :=
  Relation.ReflTransGen (Step P honest) initial

end System
end Handshake
