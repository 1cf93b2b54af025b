import Peerc.Lib.Message

-- core/protocol/messages.py

namespace Json

-- `type(v).__name__`
def typeName : Json → String
  | null    => "NoneType"
  | bool _  => "bool"
  | int _   => "int"
  | float _ => "float"
  | str _   => "str"
  | arr _   => "list"
  | obj _   => "dict"

-- `isinstance(v, int)` holds for booleans as well.
def int? : Json → Option Int
  | int n      => some n
  | bool true  => some 1
  | bool false => some 0
  | _          => none

def str? : Json → Option Text
  | str s => some s
  | _     => none

-- The field `name` of a message, if there is one and it is a string
def text? (m : Json) (name : String) : Option Text :=
  (m.get? (.ofString name)).bind str?

-- `m[name]`, of a field that validation has found to be a string
def text (m : Json) (name : String) : Text :=
  (m.text? name).getD (.ofString "")

end Json

namespace Protocol

def version : Int := 2

def minSupportedVersion : Int := 1

def maxChatTextSize : Nat := 64 * 1024

def requiredFields : List (String × List String) := [
  ("chat", ["message_id", "sender_id", "sender_name", "text"]),
  ("chat_ack", ["message_id"]),
  ("file_offer", ["transfer_id", "filename", "size", "checksum"]),
  ("file_accept", ["transfer_id"]),
  ("file_reject", ["transfer_id"]),
  ("file_chunk", ["transfer_id", "chunk_index", "data", "is_last"]),
  ("file_done", ["transfer_id", "checksum"]),
  ("file_complete_ack", ["transfer_id", "success"]),
  ("hello", ["peer_id", "sender_name", "tcp_port"]),
  ("hello_ack", ["peer_id", "sender_name", "tcp_port"]),
  ("handshake_init", ["device_id", "public_key", "ephemeral_key", "nonce", "sender_name"]),
  ("handshake_response",
    ["device_id", "public_key", "ephemeral_key", "nonce", "sender_name", "signature"]),
  ("handshake_finish", ["signature"]),
  ("error", ["code", "message"])
]

-- The texts of `ProtocolError`, without the exception itself
abbrev Check := Except Message Unit

def checkVersion (message : Json) : Check :=
  let version := (message.get? (.ofString "version")).getD (.int 1)
  match version.int? with
  | none   => throw [.text "'version' must be an int, got ", .text version.typeName]
  | some n =>
    if n < minSupportedVersion then
      throw [.text "message version ", .json version, .text " is older than the minimum supported version ",
        .int minSupportedVersion]
    else return

def checkPresent (msgType : String) (required : List String) (message : Json) : Check :=
  let missing := required.filter fun f => (message.get? (.ofString f)).isNone
  if missing ≠ [] then
    throw [.text "'", .text msgType, .text "' message missing fields: ", .names missing]
  else return

def checkNonEmptyText (msgType field : String) (message : Json) : Check :=
  match message.text? field with
  | some s =>
    if s.val = [] then
      throw [.text msgType, .text ".", .text field, .text " must be a non-empty string"]
    else return
  | none => throw [.text msgType, .text ".", .text field, .text " must be a non-empty string"]

def checkNatural (msgType field : String) (message : Json) : Check :=
  match (message.get? (.ofString field)).bind Json.int? with
  | some n =>
    if n < 0 then throw [.text msgType, .text ".", .text field, .text " must be a non-negative int"]
    else return
  | none => throw [.text msgType, .text ".", .text field, .text " must be a non-negative int"]

-- `len(s.encode("utf-8", errors="replace"))`: a surrogate is replaced by a question mark.
def replacedSize (s : Str) : Nat :=
  (s.map fun c => if c.IsSurrogate then 1 else c.utf8.length).sum

def checkChat (message : Json) : Check :=
  match message.text? "text" with
  | none   => throw [.text "chat.text must be a string"]
  | some s =>
    if replacedSize s.val > maxChatTextSize then
      throw [.text "chat.text exceeds ", .int maxChatTextSize, .text " bytes"]
    else return

def checkFileOffer (message : Json) : Check := do
  checkNonEmptyText "file_offer" "filename" message
  checkNatural "file_offer" "size" message
  checkNonEmptyText "file_offer" "checksum" message

def checkFileChunk (message : Json) : Check := do
  checkNatural "file_chunk" "chunk_index" message
  if (message.text? "data").isNone then throw [.text "file_chunk.data must be a base64 string"]

def checkHello (msgType : String) (message : Json) : Check :=
  let port := (message.get? (.ofString "tcp_port")).getD .null
  match port.int? with
  | none   => throw [.text msgType, .text ".tcp_port out of range: ", .json port]
  | some n =>
    if 0 < n ∧ n < 65536 then return
    else throw [.text msgType, .text ".tcp_port out of range: ", .json port]

def checkHandshake (msgType : String) (message : Json) : Check := do
  for field in ["device_id", "public_key", "ephemeral_key", "nonce"] do
    checkNonEmptyText msgType field message
  if (message.text? "sender_name").isNone then
    throw [.text msgType, .text ".sender_name must be a string"]

def checkSignature (msgType : String) (message : Json) : Check :=
  checkNonEmptyText msgType "signature" message

-- The checks of the fields of one type, in the order of the source
def checkFields (msgType : String) (message : Json) : Check :=
  match msgType with
  | "chat"               => checkChat message
  | "file_offer"         => checkFileOffer message
  | "file_chunk"         => checkFileChunk message
  | "hello"              => checkHello "hello" message
  | "hello_ack"          => checkHello "hello_ack" message
  | "handshake_init"     => checkHandshake "handshake_init" message
  | "handshake_response" => do
    checkHandshake "handshake_response" message
    checkSignature "handshake_response" message
  | "handshake_finish"   => checkSignature "handshake_finish" message
  | _                    => return

-- A message of an unknown type passes without a check of its fields.
def validateMessage (message : Json) : Check :=
  match message with
  | .obj _ =>
    match message.text? "type" with
    | none         => throw [.text "message missing string 'type' field"]
    | some msgType =>
      if msgType.val = [] then throw [.text "message missing string 'type' field"] else do
      checkVersion message
      match requiredFields.find? (Str.ofString ·.fst = msgType.val) with
      | none                     => return
      | some (msgType, required) =>
        checkPresent msgType required message
        checkFields msgType message
  | v => throw [.text "message is not an object: ", .text v.typeName]

def makeFileOffer (transferId senderId senderName filename : Text) (size : Int) (checksum : Text)
    (now : Double) : Json :=
  .obj [
    (.ofString "type", .str (.ofString "file_offer")),
    (.ofString "version", .int version),
    (.ofString "transfer_id", .str transferId),
    (.ofString "sender_id", .str senderId),
    (.ofString "sender_name", .str senderName),
    (.ofString "filename", .str filename),
    (.ofString "size", .int size),
    (.ofString "checksum", .str checksum),
    (.ofString "timestamp", .float now)
  ]

def makeFileAccept (transferId : Text) (now : Double) : Json :=
  .obj [
    (.ofString "type", .str (.ofString "file_accept")),
    (.ofString "version", .int version),
    (.ofString "transfer_id", .str transferId),
    (.ofString "timestamp", .float now)
  ]

def makeFileReject (transferId : Text) (now : Double) : Json :=
  .obj [
    (.ofString "type", .str (.ofString "file_reject")),
    (.ofString "version", .int version),
    (.ofString "transfer_id", .str transferId),
    (.ofString "timestamp", .float now)
  ]

def makeFileDone (transferId checksum : Text) : Json :=
  .obj [
    (.ofString "type", .str (.ofString "file_done")),
    (.ofString "version", .int version),
    (.ofString "transfer_id", .str transferId),
    (.ofString "checksum", .str checksum)
  ]

def makeFileCompleteAck (transferId : Text) (success : Bool) (detail : Text) : Json :=
  .obj [
    (.ofString "type", .str (.ofString "file_complete_ack")),
    (.ofString "version", .int version),
    (.ofString "transfer_id", .str transferId),
    (.ofString "success", .bool success),
    (.ofString "detail", .str detail)
  ]

def makeHandshakeInit (deviceId publicKey ephemeralKey nonce senderName : Text) (now : Double) : Json :=
  .obj [
    (.ofString "type", .str (.ofString "handshake_init")),
    (.ofString "version", .int version),
    (.ofString "device_id", .str deviceId),
    (.ofString "public_key", .str publicKey),
    (.ofString "ephemeral_key", .str ephemeralKey),
    (.ofString "nonce", .str nonce),
    (.ofString "sender_name", .str senderName),
    (.ofString "timestamp", .float now)
  ]

def makeHandshakeResponse (deviceId publicKey ephemeralKey nonce senderName signature : Text)
    (now : Double) : Json :=
  .obj [
    (.ofString "type", .str (.ofString "handshake_response")),
    (.ofString "version", .int version),
    (.ofString "device_id", .str deviceId),
    (.ofString "public_key", .str publicKey),
    (.ofString "ephemeral_key", .str ephemeralKey),
    (.ofString "nonce", .str nonce),
    (.ofString "sender_name", .str senderName),
    (.ofString "signature", .str signature),
    (.ofString "timestamp", .float now)
  ]

def makeHandshakeFinish (signature : Text) (now : Double) : Json :=
  .obj [
    (.ofString "type", .str (.ofString "handshake_finish")),
    (.ofString "version", .int version),
    (.ofString "signature", .str signature),
    (.ofString "timestamp", .float now)
  ]

end Protocol
