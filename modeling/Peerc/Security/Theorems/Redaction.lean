import Peerc.Security.Events
import Peerc.Primitives

-- What remains of the details of an event

namespace Security

open PyValue

-- The values under sensitive keys are replaced wherever they are. Two values differ only in what they
-- store under such keys if this makes them equal.
def redact (v : PyValue) : PyValue :=
  v.replace true isSensitive fun _ => redacted

variable {v w : PyValue}

theorem redact_sanitizeValue (v : PyValue) : redact (sanitizeValue v) = redact v := by
  rw [redact, sanitizeValue_eq, replace_replace fun _ => rfl, redact]

theorem sanitizeValue_of_not_exposed (h : ¬Exposed isSensitive v) : sanitizeValue v = redact v := by
  rw [sanitizeValue_eq, replace_false_eq h, redact]

-- Keys in tuples are the same in both values.
theorem sanitizeValue_congr (h : ¬Exposed isSensitive v) (he : redact w = redact v) :
    sanitizeValue w = sanitizeValue v := by
  have hw : ¬Exposed isSensitive w := by
    rw [← exposed_replace (f := fun _ => redacted)] at h ⊢
    rwa [← redact, he]
  rw [sanitizeValue_of_not_exposed h, sanitizeValue_of_not_exposed hw, he]

-- A value that differs from `v` in everything that is stored under a sensitive key
def alter (v : PyValue) : PyValue :=
  v.replace true isSensitive fun x => list [x]

theorem redact_alter (v : PyValue) : redact (alter v) = redact v := by
  rw [redact, alter, replace_replace id, redact]

theorem sanitizeValue_alter (h : Exposed isSensitive v) : sanitizeValue (alter v) ≠ sanitizeValue v := by
  have hne (x : PyValue) : list [x] ≠ x := by
    intro he
    have := congrArg sizeOf he
    simp only [list.sizeOf_spec, List.cons.sizeOf_spec, List.nil.sizeOf_spec] at this
    omega
  rw [sanitizeValue_eq, sanitizeValue_eq]
  exact replace_false_ne hne h

theorem not_stores_redacted {k : Str} {x : PyValue} : ¬Stores k x redacted := by
  intro h
  cases h

namespace SecurityEvent

variable {a : Arguments} {e : SecurityEvent}

theorem details_of_create (h : create a v = some e) : e.details = sanitizeValue v := by
  simp only [create, Option.pure_def, Option.bind_eq_bind, Option.bind_eq_some_iff, Option.some.injEq] at h
  obtain ⟨_, -, rfl⟩ := h
  rfl

theorem create_congr (h : sanitizeValue w = sanitizeValue v) : create a w = create a v := by
  simp only [create, h]

theorem details_inj {e' : SecurityEvent} (h : e'.toDict = e.toDict) : e'.details = e.details := by
  simp only [toDict, dict.injEq, List.cons_append, List.cons.injEq, Prod.mk.injEq] at h
  exact h.right.right.right.right.right.left.right

end SecurityEvent

open SecurityEvent

-- The redaction is complete iff no tuple that it passes has a sensitive key in it.
theorem redaction_complete_iff (F : FloatFormat) (details : PyValue) :
    ((∀ a e, create a details = some e →
        (∀ k x, Stores k x e.details → isSensitive k → x = redacted) ∧
        redact e.details = redact details ∧ sanitizeValue e.details = e.details) ∧
      ∀ other, redact other = redact details → ∀ a,
        (create a other).map toDict = (create a details).map toDict ∧
        (create a other).map (canonicalPayload F) = (create a details).map (canonicalPayload F)) ↔
      ¬Exposed isSensitive details := by
  constructor
  case mp =>
    rintro ⟨-, h⟩ hx
    let a : Arguments := ⟨.inr [], .inl .info, [], none, .zero, none, none⟩
    have hd := (h (alter details) (redact_alter details) a).left
    exact sanitizeValue_alter hx (details_inj (Option.some.inj hd))
  case mpr =>
    intro hx
    refine ⟨fun a e he => ⟨fun k x hs hk => ?_, ?_, e.sanitized⟩, fun other ho a => ?_⟩
    · rw [details_of_create he, sanitizeValue_of_not_exposed hx] at hs
      exact eq_of_stores_replace hk hs not_stores_redacted
    · rw [details_of_create he, redact_sanitizeValue]
    · have hc : create a other = create a details := create_congr (sanitizeValue_congr hx ho)
      exact ⟨by rw [hc], by rw [hc]⟩

-- A token in a tuple stays as it is, and shows in the dictionary and in the payload.
namespace Tuple

def details (token : String) : PyValue :=
  .dict [(Str.ofString "peers",
    .tuple [.dict [(Str.ofString "token", .scalar (.str (Str.ofString token)))]])]

def arguments : Arguments where
  eventType   := .inl .authFailed
  severity    := .inl .warning
  description := Str.ofString "d"
  deviceId    := none
  timestamp   := .zero

end Tuple

theorem redaction_misses_tuple : ∃ e e' : SecurityEvent,
    create Tuple.arguments (Tuple.details "a") = some e ∧
    create Tuple.arguments (Tuple.details "b") = some e' ∧
    redact (Tuple.details "a") = redact (Tuple.details "b") ∧
    isSensitive (Str.ofString "token") ∧
    Stores (Str.ofString "token") (.scalar (.str (Str.ofString "a"))) e.details ∧
    e.toDict ≠ e'.toDict ∧
    (e.canonicalPayload .transparent).isSome ∧
    e.canonicalPayload .transparent ≠ e'.canonicalPayload .transparent := by
  refine ⟨_, _, rfl, rfl, rfl, by decide, ?_, fun h => ?_, by decide +kernel, by decide +kernel⟩
  · exact .field List.mem_cons_self (.element List.mem_cons_self (.here List.mem_cons_self))
  · exact absurd (congrArg (PyValue.dumps .transparent) h) (by decide +kernel)

end Security
