import Peerc.Discovery.Packet
import Peerc.Lib.Decimal

-- The mDNS helpers of discovery.py

-- A TXT record, a `dict` of strings
abbrev TxtRecord := List (String × Str)

namespace Discovery

-- `_build_mdns_txt`. The numbers go through `str`, which refuses one with too many digits.
def buildMdnsTxt (version : Int) (deviceId : Str) (publicKey : Bytes) (name : Str) (tcpPort : Int) :
    Except PacketError TxtRecord :=
  match Json.dumpsInt version, Json.dumpsInt tcpPort with
  | some version, some tcpPort => .ok [
      ("version", version),
      ("device_id", deviceId),
      ("public_key", Base64.encode publicKey),
      ("name", name.take 64),
      ("tcp_port", tcpPort)
    ]
  | _, _ => .error .valueError

-- `_safe_int`, of a string
def safeInt (v : Str) : Int :=
  v.readInt.getD 0

-- `_mdns_txt_to_packet`
def mdnsTxtToPacket (P : Primitives) (txt : TxtRecord) (srcIp : Str) : Except PacketError Bytes :=
  let version := match txt.lookup "version" with
    | some v => v.readInt.getD 0
    | none   => 0
  encodePacket P <| .obj [
    (.ofString "type", .str (.ofString "announce")),
    (.ofString "version", .int version),
    (.ofString "device_id", .str (.join ((txt.lookup "device_id").getD []))),
    (.ofString "public_key", .str (.join ((txt.lookup "public_key").getD []))),
    (.ofString "name", .str (.join ((txt.lookup "name").getD srcIp))),
    (.ofString "tcp_port", .int (safeInt ((txt.lookup "tcp_port").getD (Str.ofString "0")))),
    (.ofString "reply", .bool false)
  ]

end Discovery
