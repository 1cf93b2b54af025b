import Peerc.Lib.Json.Key
import Peerc.Protocol.Messages

-- What `_read_loop` hands to the sessions: a JSON message that has been validated, or the fields of a
-- binary frame with the type `file_data`
inductive Packet
  | json (message : Json)
  | fileData (transferId : Text) (sequence offset : Nat) (data : Bytes)

-- The exceptions that handlers raise
inductive HandlerError
  | keyError (name : String)
  | typeError (msg : Message)
  | attributeError (msg : Message)
  | osError (msg : Message)
  | valueError (msg : Message)

-- `KeyError`, `TypeError` or `AttributeError`
def HandlerError.IsMisuse : HandlerError → Prop
  | keyError _ | typeError _ | attributeError _ => True
  | osError _ | valueError _                    => False

-- The value of the field `data`
inductive Payload
  | bytes (data : Bytes)
  | json (value : Json)

namespace Packet

-- All fields but `data`
def header : Packet → Json
  | json message                       => message
  | fileData transferId sequence offset _ => .obj [
      (.ofString "transfer_id", .str transferId),
      (.ofString "sequence", .int sequence),
      (.ofString "offset", .int offset),
      (.ofString "type", .str (.ofString "file_data"))
    ]

-- `message.get(name)`
def get? (p : Packet) (name : String) : Option Json :=
  p.header.get? (.ofString name)

-- `message.get("type")`
def type? (p : Packet) : Option Text :=
  p.header.text? "type"

def data? : Packet → Option Payload
  | json message       => (message.get? (.ofString "data")).map .json
  | fileData _ _ _ data => some (.bytes data)

-- `message[name]`
def item (p : Packet) (name : String) : Except HandlerError Json :=
  match p.get? name with
  | some v => return v
  | none   => throw <| .keyError name

-- `message["data"]`
def data (p : Packet) : Except HandlerError Payload :=
  match p.data? with
  | some v => return v
  | none   => throw <| .keyError "data"

end Packet

-- `hash(v)`, for a look-up or an insertion
def Json.hash (v : Json) : Except HandlerError Json.Key :=
  match v.key? with
  | some key => return key
  | none     => throw <| .typeError [.text "unhashable type: '", .text v.typeName, .text "'"]

-- `message[name]` as the key of a look-up
def Packet.key (p : Packet) (name : String) : Except HandlerError Json.Key := do
  (← p.item name).hash

-- `len(data)`
def Payload.len : Payload → Except HandlerError Nat
  | bytes data => return data.length
  | json v     =>
    match v.len? with
    | some n => return n
    | none   => throw <| .typeError [.text "object of type '", .text v.typeName, .text "' has no len()"]

namespace Json

variable {v : Json} {key : Key}

theorem hash_of_key? (h : v.key? = some key) : v.hash = .ok key := by
  rw [hash, h]
  rfl

theorem hash_of_none (h : v.key? = none) : ∃ e, v.hash = .error e ∧ e.IsMisuse := by
  rw [hash, h]
  exact ⟨_, rfl, trivial⟩

end Json

namespace Packet

variable {p : Packet} {name : String} {key : Json.Key}

-- The key under which a field is looked up, if there is the field and it is hashable
def key? (p : Packet) (name : String) : Option Json.Key :=
  p.get? name >>= Json.key?

theorem item_of_get? {v : Json} (h : p.get? name = some v) : p.item name = .ok v := by
  rw [item, h]
  rfl

theorem get?_of_item {v : Json} (h : p.item name = .ok v) : p.get? name = some v := by
  unfold item at h
  split at h <;> cases h
  assumption

theorem item_of_none (h : p.get? name = none) : ∃ e, p.item name = .error e ∧ e.IsMisuse := by
  rw [item, h]
  exact ⟨_, rfl, trivial⟩

theorem key_of_key? (h : p.key? name = some key) : p.key name = .ok key := by
  have ⟨v, hv, hk⟩ := Option.bind_eq_some_iff.mp h
  rw [Packet.key, item_of_get? hv]
  exact Json.hash_of_key? hk

theorem key_of_none (h : p.key? name = none) : ∃ e, p.key name = .error e ∧ e.IsMisuse := by
  rw [Packet.key]
  cases hv : p.get? name
  case none =>
    have ⟨e, he, hm⟩ := item_of_none hv
    exact ⟨e, by rw [he]; rfl, hm⟩
  case some v =>
    have hk : v.key? = none := by rwa [key?, hv] at h
    rw [item_of_get? hv]
    exact Json.hash_of_none hk

end Packet
