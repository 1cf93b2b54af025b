import Peerc.Lib.Double
import Peerc.Protocol.Messages

-- The rest of the factories of core/protocol/messages.py

namespace Protocol

def makeChatMessage (messageId senderId senderName text : Text) (now : Double) : Json :=
  .obj [
    (.ofString "type", .str (.ofString "chat")),
    (.ofString "version", .int version),
    (.ofString "message_id", .str messageId),
    (.ofString "sender_id", .str senderId),
    (.ofString "sender_name", .str senderName),
    (.ofString "text", .str text),
    (.ofString "timestamp", .float now)
  ]

-- The id is passed on as it was received.
def makeChatAck (messageId : Json) (now : Double) : Json :=
  .obj [
    (.ofString "type", .str (.ofString "chat_ack")),
    (.ofString "version", .int version),
    (.ofString "message_id", messageId),
    (.ofString "timestamp", .float now)
  ]

def makeFileChunk (transferId : Text) (chunkIndex : Int) (data : Text) (isLast : Bool) : Json :=
  .obj [
    (.ofString "type", .str (.ofString "file_chunk")),
    (.ofString "version", .int version),
    (.ofString "transfer_id", .str transferId),
    (.ofString "chunk_index", .int chunkIndex),
    (.ofString "data", .str data),
    (.ofString "is_last", .bool isLast)
  ]

def makeError (code message : Text) : Json :=
  .obj [
    (.ofString "type", .str (.ofString "error")),
    (.ofString "version", .int version),
    (.ofString "code", .str code),
    (.ofString "message", .str message)
  ]

-- What `make_hello` and `make_hello_ack` have in common
def greeting (type : String) (peerId senderName : Text) (tcpPort : Int) (now : Double) : Json :=
  .obj [
    (.ofString "type", .str (.ofString type)),
    (.ofString "version", .int version),
    (.ofString "peer_id", .str peerId),
    (.ofString "sender_name", .str senderName),
    (.ofString "tcp_port", .int tcpPort),
    (.ofString "timestamp", .float now)
  ]

def makeHello (peerId senderName : Text) (tcpPort : Int) (now : Double) : Json :=
  greeting "hello" peerId senderName tcpPort now

def makeHelloAck (peerId senderName : Text) (tcpPort : Int) (now : Double) : Json :=
  greeting "hello_ack" peerId senderName tcpPort now

end Protocol
