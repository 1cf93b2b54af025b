import Peerc.Lib.Separated
import Peerc.Primitives
import Peerc.Security.Events

-- What the signature under an event says

namespace Security

-- Two events agree on what is signed. The order of the keys in the details does not matter.
structure Agree (e e' : SecurityEvent) : Prop where
  timestamp   : e'.timestamp.bits = e.timestamp.bits
  severity    : e'.severity = e.severity
  eventType   : e'.eventType = e.eventType
  deviceId    : e'.deviceId = e.deviceId
  description : e'.description = e.description
  details     : e'.details.sortKeys = e.details.sortKeys

-- The device is given, and the texts have no NUL.
structure Separable (e : SecurityEvent) : Prop where
  device : e.deviceId ≠ none ∧ e.deviceId ≠ some []
  nul    : ∀ s ∈ [e.eventType, e.deviceId.getD [], e.description], 0 ∉ s

namespace SecurityEvent

variable {F : FloatFormat} {e e' : SecurityEvent} {m : Bytes}

-- The payload: the timestamp, four texts with a NUL after each of them, and the details
theorem canonicalPayload_eq_some : e.canonicalPayload F = some m ↔
    ∃ json a b c d j, e.details.sortKeys.dumps F = some json ∧ e.severity.value.encodeUtf8 = some a ∧
      e.eventType.encodeUtf8 = some b ∧ (e.deviceId.getD []).encodeUtf8 = some c ∧
      e.description.encodeUtf8 = some d ∧ json.encodeUtf8 = some j ∧
      m = eventDomain ++ (e.timestamp.pack ++ (0 :: (Separated.join 0 [a, b, c, d] ++ j))) := by
  simp only [canonicalPayload, Option.pure_def, Option.bind_eq_bind, Option.bind_eq_some_iff,
    Option.some.injEq, Separated.join_cons, Separated.join_nil, List.append_assoc, List.cons_append,
    List.nil_append]
  constructor
  case mp =>
    rintro ⟨json, hj, a, ha, b, hb, c, hc, d, hd, j, hje, rfl⟩
    exact ⟨json, a, b, c, d, j, hj, ha, hb, hc, hd, hje, rfl⟩
  case mpr =>
    rintro ⟨json, a, b, c, d, j, hj, ha, hb, hc, hd, hje, rfl⟩
    exact ⟨json, hj, a, ha, b, hb, c, hc, d, hd, j, hje, rfl⟩

theorem zero_notMem_json {json : Str} {j : Bytes} (he : e.details.IsJson)
    (h : e.details.sortKeys.dumps F = some json) (hj : json.encodeUtf8 = some j) : 0 ∉ j := by
  rw [Str.zero_mem_encodeUtf8 hj]
  intro hm
  exact absurd (PyValue.dumps_printable he.sortKeys h 0 hm).left (by decide)

theorem value_inj {s t : SecuritySeverity} (h : s.value = t.value) : s = t := by
  revert h
  cases s <;> cases t <;> decide

theorem zero_notMem_value (s : SecuritySeverity) : 0 ∉ s.value := by
  cases s <;> decide

theorem Agree.of_separable (hs : Separable e) (he : e.details.IsJson) (he' : e'.details.IsJson)
    (h : e.canonicalPayload F = some m) (h' : e'.canonicalPayload F = some m) : Agree e e' := by
  obtain ⟨json, a, b, c, d, j, hj, ha, hb, hc, hd, hje, rfl⟩ := canonicalPayload_eq_some.mp h
  obtain ⟨json', a', b', c', d', j', hj', ha', hb', hc', hd', hje', hm⟩ := canonicalPayload_eq_some.mp h'
  have hl : e.timestamp.pack.length = e'.timestamp.pack.length := by
    rw [Double.pack_length, Double.pack_length]
  obtain ⟨ht, hm⟩ := List.append_inj (List.append_cancel_left hm) hl
  obtain ⟨hfs, rfl⟩ := Separated.join_append_inj (zero_notMem_json he hj hje) (zero_notMem_json he' hj' hje')
    (List.cons.inj hm).right
  have hf : ∀ f ∈ [a, b, c, d], 0 ∉ f := by
    have hn := hs.nul
    simp only [List.forall_mem_cons] at hn ⊢
    exact ⟨mt (Str.zero_mem_encodeUtf8 ha).mp (zero_notMem_value _), mt (Str.zero_mem_encodeUtf8 hb).mp hn.left,
      mt (Str.zero_mem_encodeUtf8 hc).mp hn.right.left, mt (Str.zero_mem_encodeUtf8 hd).mp hn.right.right.left,
      List.forall_mem_nil _⟩
  have hfs : [a', b', c', d'] = [a, b, c, d] := Separated.join_inj hf rfl hfs.symm
  simp only [List.cons.injEq, and_true] at hfs
  obtain ⟨rfl, rfl, rfl, rfl⟩ := hfs
  obtain rfl := Str.encodeUtf8_inj hje hje'
  refine ⟨congrArg Double.bits (Double.pack_injective ht.symm), value_inj (Str.encodeUtf8_inj ha' ha),
    Str.encodeUtf8_inj hb' hb, ?_, Str.encodeUtf8_inj hd' hd,
    PyValue.dumps_inj he'.sortKeys he.sortKeys hj' hj⟩
  have hdev := Str.encodeUtf8_inj hc' hc
  obtain ⟨hne, hse⟩ := hs.device
  cases hd₁ : e.deviceId
  case none => exact absurd hd₁ hne
  case some s =>
    rw [hd₁, Option.getD_some] at hdev
    cases hd₂ : e'.deviceId
    case none =>
      rw [hd₂, Option.getD_none] at hdev
      exact absurd (hdev ▸ hd₁) hse
    case some s' =>
      rw [hd₂, Option.getD_some] at hdev
      rw [hdev]

end SecurityEvent

theorem encodeUtf8_nul {s t : Str} {m : Bytes} : Str.encodeUtf8 (s ++ 0 :: t) = some m ↔
    ∃ a b, s.encodeUtf8 = some a ∧ t.encodeUtf8 = some b ∧ m = a ++ 0 :: b := by
  have hz : CodePoint.utf8 0 = [0] := by decide
  have hn : ¬CodePoint.IsSurrogate 0 := by decide
  have he : Str.Encodable (s ++ 0 :: t) ↔ s.Encodable ∧ t.Encodable := by
    simp only [Str.Encodable, List.forall_mem_append, List.forall_mem_cons, hn, not_false_eq_true, true_and]
  simp only [Str.encodeUtf8_eq_some, he, List.flatMap_append, List.flatMap_cons, hz, List.singleton_append]
  constructor
  case mp =>
    rintro ⟨⟨hs, ht⟩, rfl⟩
    exact ⟨_, _, ⟨hs, rfl⟩, ⟨ht, rfl⟩, rfl⟩
  case mpr =>
    rintro ⟨_, _, ⟨hs, rfl⟩, ⟨ht, rfl⟩, rfl⟩
    exact ⟨⟨hs, ht⟩, rfl⟩

section

variable {F : FloatFormat} {e : SecurityEvent} {m : Bytes} {x y : Str}

-- A NUL in a text can be taken for the end of the text.

theorem shift_eventType (hx : e.eventType = x ++ 0 :: y) (h : e.canonicalPayload F = some m) :
    SecurityEvent.canonicalPayload F { e with
      eventType   := x
      deviceId    := some y
      description := e.deviceId.getD [] ++ 0 :: e.description } = some m := by
  obtain ⟨json, a, b, c, d, j, hj, ha, hb, hc, hd, hje, rfl⟩ := SecurityEvent.canonicalPayload_eq_some.mp h
  rw [hx] at hb
  obtain ⟨b₁, b₂, hb₁, hb₂, rfl⟩ := encodeUtf8_nul.mp hb
  refine SecurityEvent.canonicalPayload_eq_some.mpr
    ⟨json, a, b₁, b₂, c ++ 0 :: d, j, hj, ha, hb₁, hb₂, encodeUtf8_nul.mpr ⟨c, d, hc, hd, rfl⟩, hje, ?_⟩
  simp only [Separated.join_cons, List.append_assoc, List.cons_append]

theorem shift_deviceId (hx : e.deviceId = some (x ++ 0 :: y)) (h : e.canonicalPayload F = some m) :
    SecurityEvent.canonicalPayload F { e with
      deviceId    := some x
      description := y ++ 0 :: e.description } = some m := by
  obtain ⟨json, a, b, c, d, j, hj, ha, hb, hc, hd, hje, rfl⟩ := SecurityEvent.canonicalPayload_eq_some.mp h
  rw [hx, Option.getD_some] at hc
  obtain ⟨c₁, c₂, hc₁, hc₂, rfl⟩ := encodeUtf8_nul.mp hc
  refine SecurityEvent.canonicalPayload_eq_some.mpr
    ⟨json, a, b, c₁, c₂ ++ 0 :: d, j, hj, ha, hb, hc₁, encodeUtf8_nul.mpr ⟨c₂, d, hc₂, hd, rfl⟩, hje, ?_⟩
  simp only [Separated.join_cons, List.append_assoc, List.cons_append]

theorem shift_description (hx : e.description = x ++ 0 :: y) (h : e.canonicalPayload F = some m) :
    SecurityEvent.canonicalPayload F { e with
      eventType   := e.eventType ++ 0 :: e.deviceId.getD []
      deviceId    := some x
      description := y } = some m := by
  obtain ⟨json, a, b, c, d, j, hj, ha, hb, hc, hd, hje, rfl⟩ := SecurityEvent.canonicalPayload_eq_some.mp h
  rw [hx] at hd
  obtain ⟨d₁, d₂, hd₁, hd₂, rfl⟩ := encodeUtf8_nul.mp hd
  refine SecurityEvent.canonicalPayload_eq_some.mpr
    ⟨json, a, b ++ 0 :: c, d₁, d₂, j, hj, ha, encodeUtf8_nul.mpr ⟨b, c, hb, hc, rfl⟩, hd₁, hd₂, hje, ?_⟩
  simp only [Separated.join_cons, List.append_assoc, List.cons_append]

-- No device and an empty one are written the same way.
theorem swap_deviceId {deviceId : Option Str} (hx : deviceId.getD [] = e.deviceId.getD [])
    (h : e.canonicalPayload F = some m) :
    SecurityEvent.canonicalPayload F { e with deviceId } = some m := by
  simp only [SecurityEvent.canonicalPayload] at h ⊢
  rwa [hx]

theorem ne_append_cons {s t : Str} {c : CodePoint} : s ≠ s ++ c :: t := by
  intro h
  have := congrArg List.length h
  simp at this

end

-- Among the events with JSON details, the payload belongs to one event only iff that one names a device
-- and has no NUL in its texts.
theorem security_payload_unambiguous_iff {F : FloatFormat} {e : SecurityEvent} {m : Bytes}
    (he : e.details.IsJson) (h : e.canonicalPayload F = some m) :
    (∀ e' : SecurityEvent, e'.details.IsJson → e'.canonicalPayload F = some m → Agree e e') ↔
      Separable e := by
  constructor
  case mpr => exact fun hs e' he' h' => SecurityEvent.Agree.of_separable hs he he' h h'
  case mp =>
    intro hu
    refine ⟨⟨fun hd => ?_, fun hd => ?_⟩, ?_⟩
    · have ha := hu { e with deviceId := some [] } he (swap_deviceId (by rw [hd]; rfl) h)
      exact absurd (ha.deviceId.trans hd) nofun
    · have ha := hu { e with deviceId := none } he (swap_deviceId (by rw [hd]; rfl) h)
      exact absurd (ha.deviceId.trans hd) nofun
    · simp only [List.forall_mem_cons]
      refine ⟨fun hz => ?_, fun hz => ?_, fun hz => ?_, List.forall_mem_nil _⟩
      · obtain ⟨x, y, hx⟩ := List.append_of_mem hz
        have hp := shift_eventType hx h
        have ha := hu _ (by exact he) hp
        exact ne_append_cons (ha.eventType.trans hx)
      · cases hd : e.deviceId
        case none => simp [hd] at hz
        case some s =>
          rw [hd, Option.getD_some] at hz
          obtain ⟨x, y, rfl⟩ := List.append_of_mem hz
          have hp := shift_deviceId hd h
          have ha := hu _ (by exact he) hp
          exact ne_append_cons (Option.some.inj (ha.deviceId.trans hd))
      · obtain ⟨x, y, hx⟩ := List.append_of_mem hz
        have hp := shift_description hx h
        have ha := hu _ (by exact he) hp
        exact ne_append_cons ha.eventType.symm

-- What a failed authentication of the device `deviceId` is reported as
def authFailed (deviceId description : Str) : SecurityEvent where
  eventType      := SecurityEventType.authFailed.value
  severity       := .warning
  description
  deviceId       := some deviceId
  timestamp      := .zero
  details        := .dict []
  signature      := none
  signerDeviceId := none
  sanitized      := rfl

theorem authFailed_isJson {deviceId description : Str} : (authFailed deviceId description).details.IsJson :=
  .dict nofun .nil nofun

theorem security_payload_unambiguous_plain : ∃ (e : SecurityEvent) (m : Bytes),
    e.details.IsJson ∧ e.canonicalPayload .transparent = some m ∧ Separable e ∧
    ∀ e' : SecurityEvent, e'.details.IsJson → e'.canonicalPayload .transparent = some m → Agree e e' := by
  have hs : ((authFailed (Str.ofString "a") (Str.ofString "b")).canonicalPayload .transparent).isSome := by
    decide +kernel
  have hp : Separable (authFailed (Str.ofString "a") (Str.ofString "b")) := ⟨by decide, by decide⟩
  obtain ⟨m, hm⟩ := Option.isSome_iff_exists.mp hs
  exact ⟨_, m, authFailed_isJson, hm, hp, (security_payload_unambiguous_iff authFailed_isJson hm).mpr hp⟩

-- The peer chooses where its device id ends and the description begins.
theorem security_payload_ambiguous : ∃ e e' : SecurityEvent,
    e.details.IsJson ∧ e'.details.IsJson ∧
    e.deviceId = some (Str.ofString "a" ++ 0 :: Str.ofString "b") ∧ e.description = Str.ofString "c" ∧
    e'.deviceId = some (Str.ofString "a") ∧ e'.description = Str.ofString "b" ++ 0 :: Str.ofString "c" ∧
    (e.canonicalPayload .transparent).isSome ∧
    e'.canonicalPayload .transparent = e.canonicalPayload .transparent ∧ ¬Agree e e' := by
  refine ⟨authFailed (Str.ofString "a" ++ 0 :: Str.ofString "b") (Str.ofString "c"),
    authFailed (Str.ofString "a") (Str.ofString "b" ++ 0 :: Str.ofString "c"), authFailed_isJson,
    authFailed_isJson, rfl, rfl, rfl, rfl, by decide +kernel, by decide +kernel, fun h => ?_⟩
  exact absurd h.deviceId (by decide)

end Security
