import Peerc.Handshake.Theorems.Transcript
import Peerc.Protocol.Validation
import Peerc.Security.Events

-- What a device signs says which fields and which kind of statement are meant.

namespace Handshake

variable {P : Primitives} {name : String} {m m' : Json}

-- A message of the type `name` that was read and validated
structure Accepted (P : Primitives) (name : String) (m : Json) : Prop where
  decoded : ∃ payload, Protocol.decodeJson P payload = .ok m
  valid   : Protocol.validateMessage m = .ok ()
  type    : m.text? "type" = some (.ofString name)

def signedFields : List String :=
  ["type", "device_id", "public_key", "ephemeral_key", "nonce", "sender_name"]

theorem get?_of_text? {field : String} {s : Text} (h : m.text? field = some s) :
    m.get? (.ofString field) = some (.str s) := by
  obtain ⟨v, hv, hs⟩ := Option.bind_eq_some_iff.mp h
  cases v <;> cases hs
  exact hv

theorem checkHandshake_eq_ok (h : Protocol.checkHandshake name m = .ok ()) :
    ∀ field ∈ ["device_id", "public_key", "ephemeral_key", "nonce", "sender_name"],
      ∃ s, m.text? field = some s := by
  have checked {field : String} {rest : Protocol.Check}
      (h : (do Protocol.checkNonEmptyText name field m; rest) = .ok ()) :
      (∃ s, m.text? field = some s) ∧ rest = .ok () := by
    obtain ⟨_, hc, hr⟩ := Except.bind_eq_ok.mp h
    exact ⟨Protocol.checkNonEmptyText_eq_ok hc, hr⟩
  simp only [Protocol.checkHandshake, List.forIn_cons, List.forIn_nil, bind_assoc, pure_bind] at h
  obtain ⟨h₁, h⟩ := checked h
  obtain ⟨h₂, h⟩ := checked h
  obtain ⟨h₃, h⟩ := checked h
  obtain ⟨h₄, h⟩ := checked h
  have h₅ : ∃ s, m.text? "sender_name" = some s := by
    cases hs : m.text? "sender_name"
    case some s => exact ⟨s, rfl⟩
    case none =>
      rw [hs] at h
      cases h
  simp only [List.forall_mem_cons]
  exact ⟨h₁, h₂, h₃, h₄, h₅, List.forall_mem_nil _⟩

namespace Accepted

theorem checkFields (h : Accepted P name m) (hn : name ∈ ["handshake_init", "handshake_response"]) :
    Protocol.checkHandshake name m = .ok () := by
  simp only [List.mem_cons, List.not_mem_nil, or_false] at hn
  rcases hn with rfl | rfl
  · exact (Protocol.validated_fields h.valid h.type rfl).right
  · obtain ⟨_, hc, -⟩ := Except.bind_eq_ok.mp (Protocol.validated_fields h.valid h.type rfl).right
    exact hc

-- The fields that are signed are those of the message.
theorem get?_eq (h : Accepted P name m) (hn : name ∈ ["handshake_init", "handshake_response"]) :
    ∀ field ∈ signedFields, m.get? (.ofString field) = some (.str (m.text field)) := by
  have hs : ∀ field ∈ signedFields, ∃ s, m.text? field = some s :=
    List.forall_mem_cons.mpr ⟨⟨_, h.type⟩, checkHandshake_eq_ok (h.checkFields hn)⟩
  intro field hf
  obtain ⟨s, hs⟩ := hs field hf
  rw [get?_of_text? hs, Json.text, hs, Option.getD_some]

theorem get?_congr (h : Accepted P name m) (h' : Accepted P name m')
    (hn : name ∈ ["handshake_init", "handshake_response"]) (he : Fields.ofMessage m = Fields.ofMessage m') :
    ∀ field ∈ signedFields, m.get? (.ofString field) = m'.get? (.ofString field) := by
  have ht : ∀ field ∈ signedFields, m.text field = m'.text field := by
    simp only [signedFields, List.forall_mem_cons]
    exact ⟨congrArg Fields.type he, congrArg Fields.deviceId he, congrArg Fields.publicKey he,
      congrArg Fields.ephemeralKey he, congrArg Fields.nonce he, congrArg Fields.senderName he,
      List.forall_mem_nil _⟩
  intro field hf
  rw [h.get?_eq hn field hf, h'.get?_eq hn field hf, ht field hf]

end Accepted

-- The kinds of statements that a device signs
inductive Statement
  | responder
  | initiator
  | rotation
  | securityEvent
  deriving DecidableEq

namespace Statement

def IsPayload (P : Primitives) : Statement → Bytes → Prop
  | responder,     b => ∃ init resp, computeResponderTranscript P init resp = some b
  | initiator,     b => ∃ t s, computeInitiatorTranscript t s = some b
  | rotation,      b => ∃ cert : TransitionCertificate, cert.payload = some b
  | securityEvent, b => ∃ e : Security.SecurityEvent, e.canonicalPayload P.floats = some b

def domain : Statement → Bytes
  | responder     => responderDomain
  | initiator     => initiatorDomain
  | rotation      => TransitionCertificate.rotationDomain
  | securityEvent => Security.eventDomain

variable {k k' : Statement} {b : Bytes}

theorem domain_isPrefix (h : k.IsPayload P b) : k.domain <+: b := by
  cases k
  case responder =>
    obtain ⟨init, resp, h⟩ := h
    obtain ⟨_, _, -, -, rfl⟩ := computeResponderTranscript_eq h
    exact List.prefix_append ..
  case initiator =>
    obtain ⟨t, s, h⟩ := h
    obtain ⟨_, -, rfl⟩ := computeInitiatorTranscript_eq h
    exact List.prefix_append ..
  case rotation =>
    obtain ⟨cert, h⟩ := h
    obtain ⟨_, rfl⟩ := rotation_eq h
    exact List.prefix_append ..
  case securityEvent =>
    obtain ⟨e, h⟩ := h
    simp only [Security.SecurityEvent.canonicalPayload, Option.pure_def, Option.bind_eq_bind,
      Option.bind_eq_some_iff, Option.some.injEq] at h
    obtain ⟨_, -, _, -, _, -, _, -, _, -, _, -, rfl⟩ := h
    simp only [List.append_assoc]
    exact List.prefix_append ..

-- No domain is the beginning of another one.
theorem domain_prefixFree (h : k.domain <+: k'.domain) : k = k' := by
  revert h
  cases k <;> cases k' <;> decide

theorem eq_of_isPayload (h : k.IsPayload P b) (h' : k'.IsPayload P b) : k = k' := by
  rcases List.prefix_or_prefix_of_prefix (domain_isPrefix h) (domain_isPrefix h') with hp | hp
  · exact domain_prefixFree hp
  · exact (domain_prefixFree hp).symm

end Statement

-- The transcripts of accepted messages determine their fields, those of the initiator also the signature
-- of the responder, and no two kinds of statements have a payload in common.
theorem transcripts_unambiguous {init init' resp resp' : Json}
    (hi : Accepted P "handshake_init" init) (hi' : Accepted P "handshake_init" init')
    (hr : Accepted P "handshake_response" resp) (hr' : Accepted P "handshake_response" resp') :
    (∀ t, computeResponderTranscript P (.ofMessage init) (.ofMessage resp) = some t →
      computeResponderTranscript P (.ofMessage init') (.ofMessage resp') = some t →
      ∀ field ∈ signedFields, init.get? (.ofString field) = init'.get? (.ofString field) ∧
        resp.get? (.ofString field) = resp'.get? (.ofString field)) ∧
    (∀ t t' s s' b, computeResponderTranscript P (.ofMessage init) (.ofMessage resp) = some t →
      computeResponderTranscript P (.ofMessage init') (.ofMessage resp') = some t' →
      computeInitiatorTranscript t s = some b → computeInitiatorTranscript t' s' = some b →
      s = s' ∧ ∀ field ∈ signedFields, init.get? (.ofString field) = init'.get? (.ofString field) ∧
        resp.get? (.ofString field) = resp'.get? (.ofString field)) ∧
    ∀ (k k' : Statement) (b : Bytes), k.IsPayload P b → k'.IsPayload P b → k = k' := by
  have hf (h₁ : Fields.ofMessage init = Fields.ofMessage init')
      (h₂ : Fields.ofMessage resp = Fields.ofMessage resp') :
      ∀ field ∈ signedFields, init.get? (.ofString field) = init'.get? (.ofString field) ∧
        resp.get? (.ofString field) = resp'.get? (.ofString field) :=
    fun field hm => ⟨hi.get?_congr hi' (by decide) h₁ field hm, hr.get?_congr hr' (by decide) h₂ field hm⟩
  refine ⟨fun t ht ht' => ?_, fun t t' s s' b ht ht' hb hb' => ?_, fun k k' b => Statement.eq_of_isPayload⟩
  · obtain ⟨h₁, h₂⟩ := computeResponderTranscript_inj ht ht'
    exact hf h₁ h₂
  · obtain ⟨h₁, h₂, hs⟩ := computeInitiatorTranscript_inj ht ht' hb hb'
    exact ⟨hs, hf h₁ h₂⟩

-- Two messages with a name that has to be escaped
namespace Quoted

def senderName : Text := ⟨[0x22, 0x0A, 0xD83D], by decide⟩

def init : Json :=
  Protocol.makeHandshakeInit (.ofString "a") (.ofString "b") (.ofString "c") (.ofString "d") senderName .zero

def response : Json :=
  Protocol.makeHandshakeResponse (.ofString "a") (.ofString "b") (.ofString "c") (.ofString "d") senderName
    (.ofString "e") .zero

theorem accepted {m : Json} (hw : m.WellFormed) (he : (Protocol.encodeJson .transparent m).isSome)
    (hv : Protocol.validateMessage m = .ok ()) (ht : m.text? "type" = some (.ofString name)) :
    Accepted .transparent name m := by
  obtain ⟨payload, hp⟩ := Option.isSome_iff_exists.mp he
  exact ⟨⟨payload, Protocol.decodeJson_encodeJson hw hp⟩, hv, ht⟩

theorem init_accepted : Accepted .transparent "handshake_init" init := by
  refine accepted ⟨?_, trivial, trivial, trivial, trivial, trivial, trivial, trivial, Json.zero_wellFormed, trivial⟩
    (by decide +kernel) rfl rfl
  simp only [List.map_cons, List.map_nil]
  decide

theorem response_accepted : Accepted .transparent "handshake_response" response := by
  refine accepted ⟨?_, trivial, trivial, trivial, trivial, trivial, trivial, trivial, trivial,
    Json.zero_wellFormed, trivial⟩ (by decide +kernel) rfl rfl
  simp only [List.map_cons, List.map_nil]
  decide

end Quoted

theorem transcripts_unambiguous_quoted :
    Accepted .transparent "handshake_init" Quoted.init ∧
    Accepted .transparent "handshake_response" Quoted.response ∧
    (∃ t, computeResponderTranscript .transparent (.ofMessage Quoted.init) (.ofMessage Quoted.response) =
      some t) ∧
    ∀ (k k' : Statement) (b : Bytes), k.IsPayload .transparent b → k'.IsPayload .transparent b → k = k' :=
  ⟨Quoted.init_accepted, Quoted.response_accepted, Option.isSome_iff_exists.mp (by decide +kernel),
    (transcripts_unambiguous Quoted.init_accepted Quoted.init_accepted Quoted.response_accepted
      Quoted.response_accepted).right.right⟩

end Handshake
