import Peerc.Lib.Message
import Peerc.Lib.Uuid

-- core/protocol/binary.py

-- The fields of a `file_data` frame
structure FileData where
  transferId : Text
  sequence   : Nat
  offset     : Nat
  data       : Bytes
  deriving DecidableEq

namespace Protocol

def headerSize : Nat := 28

-- `str(uuid.UUID(bytes=tid_bytes))`
def uuidText (tidBytes : Bytes) : Text :=
  ⟨Uuid.text tidBytes, .of_encodable (Uuid.text_isAscii tidBytes).encodable⟩

def encodeFileData (transferId : Str) (sequence offset : Int) (data : Bytes) : Except Message Bytes :=
  match Uuid.parse transferId with
  | none          => .error [.text "transfer_id is not a valid UUID: ", .repr transferId]
  | some tidBytes =>
    if sequence < 0 ∨ sequence > 0xFFFFFFFF then
      .error [.text "sequence out of range for uint32: ", .int sequence]
    else if offset < 0 ∨ offset > 0xFFFFFFFFFFFFFFFF then
      .error [.text "offset out of range for uint64: ", .int offset]
    else .ok (tidBytes ++ Bytes.ofNatBE 4 sequence.toNat ++ Bytes.ofNatBE 8 offset.toNat ++ data)

def decodeFileData (payload : Bytes) : Except Message FileData :=
  if payload.length < headerSize then
    .error [.text "file_data frame too short: ", .int payload.length, .text " bytes, need at least ",
      .int headerSize]
  else .ok {
    transferId := uuidText (payload.take 16)
    sequence   := Bytes.toNatBE ((payload.drop 16).take 4)
    offset     := Bytes.toNatBE ((payload.drop 20).take 8)
    data       := payload.drop headerSize
  }

end Protocol
