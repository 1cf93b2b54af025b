import Peerc.Lib.Double
import Peerc.Lib.Presence
import Peerc.Lib.Str
import Peerc.Lib.Table

-- discovery.py

structure Peer where
  peerId    : Str
  name      : Str
  ip        : Str
  tcpPort   : Int
  publicKey : Bytes
  lastSeen  : Clock
  deriving DecidableEq

-- A call of `on_peer_new` or `on_peer_lost`, with the peer as it is at that moment
inductive Notification
  | peerNew (peer : Peer)
  | peerLost (peer : Peer)
  deriving DecidableEq

structure PeerRegistry where
  peers         : Table Str Peer Peer.peerId := .empty
  notifications : List Notification := []

inductive RegistryError
  | keyError (peerId : Str)

abbrev RegistryM := EStateM RegistryError PeerRegistry

namespace PeerRegistry

-- 10.0
def peerTimeout : Double := ⟨0x4024000000000000⟩

def upsert (r : PeerRegistry) (peerId name ip : Str) (tcpPort : Int) (publicKey : Bytes)
    (now : Clock) : PeerRegistry :=
  match r.peers.find? peerId with
  | none   =>
    let peer := { peerId, name, ip, tcpPort, publicKey, lastSeen := now }
    { peers         := r.peers.replace peer
      notifications := r.notifications ++ [.peerNew peer] }
  | some _ =>
    { r with
      peers := r.peers.update peerId
        (fun existing => { existing with
          name, ip, tcpPort
          publicKey := if publicKey ≠ [] then publicKey else existing.publicKey
          lastSeen  := now })
        fun _ => rfl }

-- `now - p.last_seen > PEER_TIMEOUT`
def isStale (now : Clock) (peer : Peer) : Bool :=
  peerTimeout.units < Double.subUnits now.val peer.lastSeen.val

def staleIds (r : PeerRegistry) (now : Clock) : List Str :=
  (r.peers.rows.filter (isStale now)).map (·.peerId)

-- An iteration of the loop of `prune_stale`
def lose (peerId : Str) : RegistryM Unit := do
  match (← get).peers.find? peerId with
  | none      => throw <| .keyError peerId
  | some peer => modify fun r => {
      peers         := r.peers.erase peerId
      notifications := r.notifications ++ [.peerLost peer] }

def loseAll : List Str → RegistryM Unit
  | []            => return
  | peerId :: ids => do
    lose peerId
    loseAll ids

def pruneStale (now : Clock) : RegistryM Unit := do
  loseAll ((← get).staleIds now)

end PeerRegistry
