import Peerc.Handshake.Phases

-- The two roles as instances of one script

namespace Handshake

variable {P : Primitives} {sh sh' : Shared} {α β : Type} {env : Env} {party : Party}

-- What the roles have in common: the message `m` that names the peer is read, admitted and replied to, and
-- what was sent is the start of the last part.
structure Script (α : Type) where
  name   : String
  role   : String
  read   : Except Failure Json
  reply  : (m : Json) → (peerPubBytes : Bytes) → TrustDecision → Except Failure α
  finish : α → Except Failure Result

def Script.perform (P : Primitives) (script : Script α) (env : Env) : HandshakeM Result := do
  interfere P env.before
  let m ← liftExcept script.read
  let (peerPubBytes, trustDecision) ← checkPeer P script.name script.role m env.now
  let sent ← liftExcept <| script.reply m peerPubBytes trustDecision
  interfere P env.after
  liftExcept <| script.finish sent

def initiatorScript (P : Primitives) (st : InitSent) (env : Env) : Script (FinishSent × Bytes) where
  name   := "handshake_response"
  role   := "responder"
  read   := do
    drain env.drain₁
    awaitFrame P "handshake_response" env.first
  reply m pub dec := initiatorReply P st m pub dec env.now.send
  finish sent := do
    drain env.drain₂
    initiatorFinish P sent.fst

def responderScript (P : Primitives) (party : Party) (env : Env) : Script (ResponseSent × Bytes) where
  name   := "handshake_init"
  role   := "initiator"
  read   := awaitFrame P "handshake_init" env.first
  reply m pub dec := responderReply P party env.ephemeral env.nonce m pub dec env.now.send
  finish sent := do
    drain env.drain₂
    let finishMsg ← awaitFrame P "handshake_finish" env.second
    responderOnFinish P sent.fst finishMsg

theorem liftExcept_bind (x : Except Failure α) (f : α → Except Failure β) :
    liftExcept (x >>= f) = liftExcept x >>= fun a => liftExcept (f a) := by
  cases x <;> rfl

theorem performHandshakeInitiator_eq : performHandshakeInitiator P party env = (do
    let (st, _) ← liftExcept <| initiatorStart P party env.ephemeral env.nonce env.start
    (initiatorScript P st env).perform P env) := by
  simp only [performHandshakeInitiator, Script.perform, initiatorScript, initiatorOnResponse,
    liftExcept_bind, bind_assoc]

theorem performHandshakeResponder_eq :
    performHandshakeResponder P party env = (responderScript P party env).perform P env := by
  simp only [performHandshakeResponder, Script.perform, responderScript, responderOnInit,
    liftExcept_bind, bind_assoc]

-- The result is about the device that the message names.
structure Result.Describes (r : Result) (peer : Fields) (dec : TrustDecision) : Prop where
  deviceId      : r.peerDeviceId = peer.deviceId
  publicKey     : r.peerPublicKey = peer.publicKey
  trustDecision : r.trustDecision = dec

theorem initiatorScript_result {st : InitSent} {m : Json} {pub : Bytes} {dec : TrustDecision}
    {r : Result}
    (h : (initiatorScript P st env).reply m pub dec >>= (initiatorScript P st env).finish = .ok r) :
    r.Describes (.ofMessage m) dec := by
  simp only [initiatorScript, Except.bind_eq_ok, initiatorReply_eq_ok, initiatorSign_eq_ok,
    initiatorFinish_eq_ok, Prod.exists] at h
  obtain ⟨_, _, ⟨⟨_, _, -, rfl⟩, -⟩, _, -, _, _, -, -, rfl⟩ := h
  exact ⟨rfl, rfl, rfl⟩

theorem responderScript_result {m : Json} {pub : Bytes} {dec : TrustDecision} {r : Result}
    (h : (responderScript P party env).reply m pub dec >>= (responderScript P party env).finish =
      .ok r) : r.Describes (.ofMessage m) dec := by
  simp only [responderScript, Except.bind_eq_ok, responderReply_eq_ok, responderSign_eq_ok,
    responderOnFinish_eq_ok, Prod.exists] at h
  obtain ⟨_, _, ⟨⟨_, -, rfl⟩, -⟩, _, -, _, -, -, _, _, _, -, -, -, -, -, rfl⟩ := h
  exact ⟨rfl, rfl, rfl⟩

namespace Script

variable {script : Script α}

-- The store after the user's calls up to the arrival of the first message
def storeBefore (P : Primitives) (env : Env) (sh : Shared) : Option TrustStore :=
  sh.store.map (·.run P env.before)

-- The script gets past the trust step.
structure Admits (P : Primitives) (script : Script α) (env : Env) (sh : Shared) (m : Json) (pub : Bytes)
    (dec : TrustDecision) (store : Option TrustStore) : Prop where
  read     : script.read = .ok m
  presents : Presents P script.name sh.cache env.now.cache m pub
  trust    : TrustStep (.ofMessage m) env.now.trust (storeBefore P env sh) dec store

theorem perform_cases (P : Primitives) (script : Script α) (env : Env) (sh : Shared) :
    (∃ e cache, (script.perform P env).run sh = .error e ⟨storeBefore P env sh, cache⟩) ∨
    ∃ m pub dec store, script.Admits P env sh m pub dec store := by
  simp only [perform, interfere, EStateM.run_bind, EStateM.run_modify, liftExcept_run]
  cases hm : script.read
  case error e => exact .inl ⟨e, sh.cache, rfl⟩
  case ok m =>
    rcases checkPeer_cases P script.name script.role m env.now ⟨storeBefore P env sh, sh.cache⟩ with
      ⟨e, cache, h⟩ | ⟨pub, dec, store, hp, ht⟩
    · refine .inl ⟨e, cache, ?_⟩
      simp only [storeBefore] at h
      simp only [h]
      rfl
    · exact .inr ⟨m, pub, dec, store, hm, hp, ht⟩

theorem Admits.run {m : Json} {pub : Bytes} {dec : TrustDecision} {store : Option TrustStore}
    (h : script.Admits P env sh m pub dec store) : ∃ cache,
    (checkPeer P script.name script.role m env.now).run ⟨storeBefore P env sh, sh.cache⟩ =
      .ok (pub, dec) ⟨store, cache⟩ :=
  ⟨_, checkPeer_run h.presents h.trust⟩

theorem perform_run {m : Json} {pub : Bytes} {dec : TrustDecision} {store : Option TrustStore}
    (h : script.Admits P env sh m pub dec store) : ∃ cache, (script.perform P env).run sh =
      match script.reply m pub dec with
      | .error e => .error e ⟨store, cache⟩
      | .ok sent =>
        match script.finish sent with
        | .error e => .error e ⟨store.map (·.run P env.after), cache⟩
        | .ok r    => .ok r ⟨store.map (·.run P env.after), cache⟩ := by
  obtain ⟨cache, ha⟩ := h.run
  refine ⟨cache, ?_⟩
  simp only [storeBefore] at ha
  simp only [perform, interfere, EStateM.run_bind, EStateM.run_modify, liftExcept_run, h.read, ha]
  cases script.reply m pub dec
  case error => rfl
  case ok sent => cases hf : script.finish sent <;> simp only [hf]

-- A result is returned only if every part succeeds.
theorem perform_eq_ok {r : Result} (h : (script.perform P env).run sh = .ok r sh') :
    ∃ m pub dec store sent, script.Admits P env sh m pub dec store ∧
      script.reply m pub dec = .ok sent ∧ script.finish sent = .ok r ∧
      sh'.store = store.map (·.run P env.after) := by
  rcases perform_cases P script env sh with ⟨e, cache, he⟩ | ⟨m, pub, dec, store, ha⟩
  · cases h.symm.trans he
  · obtain ⟨cache, hr⟩ := perform_run ha
    cases hs : script.reply m pub dec
    case error e => simp [h, hs] at hr
    case ok sent =>
      cases hf : script.finish sent
      case error e => simp [h, hs, hf] at hr
      case ok r' =>
        simp only [h, hs, hf, EStateM.Result.ok.injEq] at hr
        obtain ⟨rfl, rfl⟩ := hr
        exact ⟨m, pub, dec, store, sent, ha, hs, hf, rfl⟩

end Script
end Handshake
