import Peerc.Discovery.Registry
import Peerc.Lib.Json.Key
import Peerc.Lib.Json.Parse
import Peerc.Lib.Machine
import Peerc.Lib.Path
import Peerc.Lib.Refines
import Peerc.Primitives
import Peerc.Protocol.Messages
import Peerc.Security.Events

-- discovery.py

-- The address of a packet. A socket gives no empty host, and nothing looks at the port.
structure Address where
  host    : Str
  host_ne : host ≠ []

structure Discovery where
  peerId    : Str
  name      : Str
  tcpPort   : Int
  publicKey : Bytes

-- What an announcement that is accepted says
structure Announcement where
  deviceId  : Text
  name      : Str
  tcpPort   : Int
  publicKey : Bytes

inductive Verdict
  | ignore
  | inconsistent (deviceId : Text)
  | accept (a : Announcement)

-- What a packet leads to: changes of the registry, security events, and replies that are sent to the
-- broadcast port of a host
structure DiscoveryState where
  registry : PeerRegistry := {}
  events   : List Security.SecurityEvent := []
  replies  : List (Str × Bytes) := []

-- An integer with too many digits
inductive PacketError
  | valueError

abbrev DiscoveryM := EStateM PacketError DiscoveryState

namespace Discovery

def protocolVersion : Int := 2

-- `json.dumps(msg).encode("utf-8")`
def encodePacket (P : Primitives) (msg : Json) : Except PacketError Bytes :=
  match Json.dumps P.floats .default msg >>= Str.encodeUtf8 with
  | some payload => .ok payload
  | none         => .error .valueError

-- The message of an announcement. A pair of surrogates is written like the character that it stands for.
def announcement (d : Discovery) (name : Str) (reply : Bool) : Json :=
  .obj [
    (.ofString "type", .str (.ofString "announce")),
    (.ofString "version", .int protocolVersion),
    (.ofString "device_id", .str (.join d.peerId)),
    (.ofString "public_key", .str (Base64.encodeText d.publicKey)),
    (.ofString "name", .str (.join name)),
    (.ofString "tcp_port", .int d.tcpPort),
    (.ofString "reply", .bool reply)
  ]

-- `_build_payload`
def buildPayload (P : Primitives) (d : Discovery) (reply : Bool) : Except PacketError Bytes :=
  encodePacket P (d.announcement d.name reply)

-- The first checks of `_handle_packet`: the message, if it is an announcement of this version
def readAnnounce (P : Primitives) (data : Bytes) : Except PacketError (Option Json) :=
  match Str.decodeUtf8 data with
  | none      => .ok none
  | some text =>
    match Json.loads P.floats text with
    | .error .decodeError => .ok none
    | .error .valueError  => .error .valueError
    | .ok msg             =>
      if msg.text? "type" = some (.ofString "announce") ∧
          ((msg.get? (.ofString "version")).getD .null).equalsInt protocolVersion then
        .ok (some msg)
      else .ok none

-- A field that is a string and not empty
def nonemptyText? (msg : Json) (name : String) : Option Text :=
  (msg.text? name).filter (·.val ≠ [])

def nameOf (msg : Json) (host : Str) : Str :=
  let name := match msg.text? "name" with
    | some name => if name.val.strip = [] then host else name.val
    | none      => host
  name.take 64

def portOf? (msg : Json) : Option Int :=
  (((msg.get? (.ofString "tcp_port")).getD (.int 0)).int?).filter fun port => 0 < port ∧ port < 65536

-- The checks of the fields
def examine (P : Primitives) (d : Discovery) (msg : Json) (host : Str) : Verdict :=
  match nonemptyText? msg "device_id" with
  | none          => .ignore
  | some deviceId =>
    match (nonemptyText? msg "public_key").bind fun s => Base64.decodeStrict s.val with
    | none           => .ignore
    | some publicKey =>
      if publicKey.length ≠ 32 then .ignore
      else if (P.sha256 publicKey).hex ≠ deviceId.val then .inconsistent deviceId
      -- Our own broadcast
      else if deviceId.val = d.peerId then .ignore
      else
        match portOf? msg with
        | none         => .ignore
        | some tcpPort => .accept { deviceId, name := nameOf msg host, tcpPort, publicKey }

def inconsistency (deviceId : Text) (host : Str) (now : Clock) : Security.SecurityEvent where
  eventType      := SecurityEventType.authFailed.value
  severity       := .warning
  description    := Str.ofString "discovery packet from " ++ host ++ Str.ofString " claimed device_id " ++
    deviceId.val.take 16 ++ Str.ofString "... but it doesn't match sha256(public_key) " ++
    Str.ofString "— dropping as internally inconsistent"
  deviceId       := some deviceId.val
  timestamp      := now.val
  details        := Security.sanitizeValue <| .dict [
    (Str.ofString "stage", .scalar (.str (Str.ofString "discovery"))),
    (Str.ofString "reason", .scalar (.str (Str.ofString "device_id_pubkey_mismatch"))),
    (Str.ofString "source_ip", .scalar (.str host))
  ]
  signature      := none
  signerDeviceId := none
  sanitized      := Security.sanitizeValue_idem _

-- The registry takes the announcement in before a reply is built.
def accept (P : Primitives) (d : Discovery) (now : Clock) (addr : Address) (a : Announcement)
    (reply : Bool) : DiscoveryM Unit := do
  modify fun s => { s with
    registry := s.registry.upsert a.deviceId.val a.name addr.host a.tcpPort a.publicKey now }
  if reply then
    let payload ← d.buildPayload P false
    modify fun s => { s with replies := s.replies ++ [(addr.host, payload)] }

-- `_handle_packet`
def handlePacket (P : Primitives) (d : Discovery) (now : Clock) (data : Bytes) (addr : Address) :
    DiscoveryM Unit := do
  match ← readAnnounce P data with
  | none     => return
  | some msg =>
    match d.examine P msg addr.host with
    | .ignore                => return
    | .inconsistent deviceId =>
      modify fun s => { s with events := s.events ++ [inconsistency deviceId addr.host now] }
    | .accept a              =>
      d.accept P now addr a ((msg.get? (.ofString "reply")).getD (.bool true)).truthy

end Discovery

-- What happens to the registry, with the reading of the clock
inductive DiscoveryEvent
  | packet (now : Clock) (data : Bytes) (addr : Address)
  | prune (now : Clock)

def DiscoveryEvent.now : DiscoveryEvent → Clock
  | packet now .. | prune now => now

-- `clock` is the reading of the last event.
structure DiscoverySystem extends DiscoveryState where
  clock : Clock

namespace DiscoverySystem

-- An exception of `_handle_packet` leaves what was done before it.
def step (P : Primitives) (d : Discovery) (s : DiscoverySystem) :
    DiscoveryEvent → Option DiscoverySystem
  | .packet now data addr =>
    some ⟨((d.handlePacket P now data addr).run s.toDiscoveryState).state, now⟩
  | .prune now            =>
    let registry := ((PeerRegistry.pruneStale now).run s.registry).state
    some ⟨{ s.toDiscoveryState with registry }, now⟩

def machine (P : Primitives) (d : Discovery) : Machine DiscoverySystem DiscoveryEvent where
  Init s := s.toDiscoveryState = {}
  step   := step P d

-- The clock does not go back.
def Forward (s : DiscoverySystem) (e : DiscoveryEvent) : Prop :=
  s.clock.val.units ≤ e.now.val.units

instance decidableForward (s : DiscoverySystem) (e : DiscoveryEvent) : Decidable (Forward s e) :=
  inferInstanceAs (Decidable (_ ≤ _))

end DiscoverySystem
