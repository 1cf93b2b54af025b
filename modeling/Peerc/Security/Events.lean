import Mathlib.Data.List.Infix
import Peerc.Lib.Redact

-- core/security/events.py

inductive SecuritySeverity
  | info
  | warning
  | high
  | critical
  deriving DecidableEq

inductive SecurityEventType
  | endpointChanged
  | keyRotation
  | unknownDevice
  | identityChanged
  | authFailed
  | invalidRotation
  | revokedDeviceAttempt
  | repeatedAuthFailures
  | replayDetected
  | suspiciousAuthorization
  | adminKeyCompromise
  | privateKeyCompromise
  | invalidAuthorityChain
  deriving DecidableEq

def SecuritySeverity.value : SecuritySeverity → Str
  | info     => Str.ofString "INFO"
  | warning  => Str.ofString "WARNING"
  | high     => Str.ofString "HIGH"
  | critical => Str.ofString "CRITICAL"

def SecurityEventType.value : SecurityEventType → Str
  | endpointChanged         => Str.ofString "endpoint_changed"
  | keyRotation             => Str.ofString "key_rotation"
  | unknownDevice           => Str.ofString "unknown_device"
  | identityChanged         => Str.ofString "identity_changed"
  | authFailed              => Str.ofString "auth_failed"
  | invalidRotation         => Str.ofString "invalid_rotation"
  | revokedDeviceAttempt    => Str.ofString "revoked_device_attempt"
  | repeatedAuthFailures    => Str.ofString "repeated_auth_failures"
  | replayDetected          => Str.ofString "replay_detected"
  | suspiciousAuthorization => Str.ofString "suspicious_authorization"
  | adminKeyCompromise      => Str.ofString "admin_key_compromise"
  | privateKeyCompromise    => Str.ofString "private_key_compromise"
  | invalidAuthorityChain   => Str.ofString "invalid_authority_chain"

namespace Security

def eventDomain : Bytes :=
  Bytes.ascii "peerc-security-event" ++ [0]

def sensitiveKeys : List Str := [
  Str.ofString "private_key",
  Str.ofString "session_key",
  Str.ofString "secret",
  Str.ofString "password",
  Str.ofString "key_hex",
  Str.ofString "seed",
  Str.ofString "token",
  Str.ofString "shared_secret"
]

-- `c.lower()` where there are ASCII letters in the result: it is İ and the kelvin sign that have some
-- besides the ASCII letters. The other characters are kept, since no sensitive key has them or their
-- lower case.
def lower (c : CodePoint) : Str :=
  if 0x41 ≤ c.val ∧ c.val ≤ 0x5A then [c + 0x20]
  else if c = 0x130 then [0x69, 0x307]
  else if c = 0x212A then [0x6B]
  else [c]

-- `any(s in k.lower() for s in _SENSITIVE_KEYS)`
def isSensitive (k : Str) : Bool :=
  sensitiveKeys.any fun s => (k.flatMap lower).tails.any s.isPrefixOf

def redacted : PyValue :=
  .scalar (.str (Str.ofString "[REDACTED]"))

mutual

-- `_sanitize_value`
def sanitizeValue : PyValue → PyValue
  | .dict fields => .dict (sanitizeFields fields)
  | .list items  => .list (sanitizeItems items)
  | .tuple items => .tuple items
  | .scalar s    => .scalar s

def sanitizeItems : List PyValue → List PyValue
  | []      => []
  | v :: vs => sanitizeValue v :: sanitizeItems vs

def sanitizeFields : List (Str × PyValue) → List (Str × PyValue)
  | []            => []
  | (k, v) :: kvs => (k, if isSensitive k then redacted else sanitizeValue v) :: sanitizeFields kvs

end

theorem sanitizeItems_eq (items : List PyValue) : sanitizeItems items = items.map sanitizeValue := by
  induction items <;> simp [sanitizeItems, *]

theorem sanitizeFields_eq (fields : List (Str × PyValue)) : sanitizeFields fields =
    fields.map fun kv => (kv.fst, if isSensitive kv.fst then redacted else sanitizeValue kv.snd) := by
  induction fields <;> simp [sanitizeFields, *]

theorem sanitizeValue_eq (v : PyValue) :
    sanitizeValue v = v.replace false isSensitive fun _ => redacted := by
  induction v using PyValue.induct
  case scalar => rw [sanitizeValue, PyValue.replace_scalar]
  case list items hi =>
    rw [sanitizeValue, sanitizeItems_eq, PyValue.replace_list, List.map_congr_left hi]
  case tuple => rw [sanitizeValue, PyValue.replace_false_tuple]
  case dict fields hi =>
    rw [sanitizeValue, sanitizeFields_eq, PyValue.replace_dict, PyValue.dict.injEq]
    exact List.map_congr_left fun kv hkv => by rw [hi kv hkv]

theorem sanitizeValue_idem (v : PyValue) : sanitizeValue (sanitizeValue v) = sanitizeValue v := by
  rw [sanitizeValue_eq, sanitizeValue_eq, PyValue.replace_replace id]

structure SecurityEvent where
  eventType      : Str
  severity       : SecuritySeverity
  description    : Str
  deviceId       : Option Str
  timestamp      : Double
  details        : PyValue
  signature      : Option Str
  signerDeviceId : Option Str
  sanitized      : sanitizeValue details = details

-- What an event is built from, apart from the details. The type and the severity are members of their
-- enumerations or texts.
structure Arguments where
  eventType      : SecurityEventType ⊕ Str
  severity       : SecuritySeverity ⊕ Str
  description    : Str
  deviceId       : Option Str
  timestamp      : Double
  signature      : Option Str := none
  signerDeviceId : Option Str := none

-- `SecuritySeverity(s)` raises `ValueError` for other texts.
def severityOf? (s : Str) : Option SecuritySeverity :=
  [.info, .warning, .high, .critical].find? (·.value = s)

namespace SecurityEvent

-- `SecurityEvent(..)` with `__post_init__`
def create (a : Arguments) (details : PyValue) : Option SecurityEvent := do
  let eventType := a.eventType.elim (·.value) id
  let severity ← a.severity.elim some severityOf?
  return { a with eventType, severity, details := sanitizeValue details, sanitized := sanitizeValue_idem details }

-- `to_dict`
def toDict (e : SecurityEvent) : PyValue :=
  let text (s : Str) := PyValue.scalar (.str s)
  let optional (name : String) (s : Option Str) := s.toList.map fun s => (Str.ofString name, text s)
  .dict <| [
    (Str.ofString "event_type", text e.eventType),
    (Str.ofString "severity", text e.severity.value),
    (Str.ofString "description", text e.description),
    (Str.ofString "device_id", .scalar (e.deviceId.elim .none .str)),
    (Str.ofString "timestamp", .scalar (.float e.timestamp)),
    (Str.ofString "details", e.details)
  ] ++ optional "signature" e.signature ++ optional "signer_device_id" e.signerDeviceId

-- `canonical_payload`: encoding a text with a surrogate raises, and so does writing an integer with too
-- many digits.
def canonicalPayload (F : FloatFormat) (e : SecurityEvent) : Option Bytes := do
  let detailsJson ← e.details.sortKeys.dumps F
  let severity ← e.severity.value.encodeUtf8
  let eventType ← e.eventType.encodeUtf8
  let deviceId ← (e.deviceId.getD []).encodeUtf8
  let description ← e.description.encodeUtf8
  let details ← detailsJson.encodeUtf8
  return eventDomain ++ e.timestamp.pack ++ [0] ++ severity ++ [0] ++ eventType ++ [0] ++ deviceId ++ [0]
    ++ description ++ [0] ++ details

end SecurityEvent

end Security
