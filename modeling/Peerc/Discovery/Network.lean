import Mathlib.Logic.Function.Basic
import Peerc.Discovery.Packet

-- Several devices that discover each other

-- A datagram on its way to the broadcast port of a host
structure Datagram where
  source : Address
  host   : Str
  data   : Bytes

structure Devices (ι : Type) where
  node    : ι → Discovery
  address : ι → Address

-- `announced` lists the devices that were to be reached by an announcement, with its sender.
structure Network (ι : Type) where
  states    : ι → DiscoveryState := fun _ => {}
  inFlight  : List Datagram := []
  announced : List (ι × ι) := []

inductive NetworkEvent (ι : Type)
  -- `broadcast_now`, a round of `_announce_loop`, or `probe_peer`. The network determines whom that reaches.
  | announce (i : ι) (targets : List ι)
  | deliver (k : Nat) (j : ι) (now : Clock)
  | lose (k : Nat)
  | duplicate (k : Nat)
  -- Somebody else sends something, under an address of their choice.
  | inject (datagram : Datagram)
  | prune (i : ι) (now : Clock)

namespace Network

-- The bytes of a datagram that `_listen_loop` asks for. The others are lost.
def receiveSize : Nat := 4096

variable {ι : Type} [DecidableEq ι] (P : Primitives) (D : Devices ι) (s : Network ι)

def announce (i : ι) (targets : List ι) : Network ι :=
  match (D.node i).buildPayload P true with
  | .error _     => s
  | .ok payload => { s with
      inFlight  := s.inFlight ++ targets.map fun j => ⟨D.address i, (D.address j).host, payload⟩
      announced := s.announced ++ targets.map (i, ·) }

-- A round of `_listen_loop`, and the replies that it sends
def deliver (k : Nat) (d : Datagram) (j : ι) (now : Clock) : Network ι :=
  let state := (((D.node j).handlePacket P now (d.data.take receiveSize) d.source).run (s.states j)).state
  let replies := state.replies.drop (s.states j).replies.length
  { s with
    states   := Function.update s.states j state
    inFlight := s.inFlight.eraseIdx k ++ replies.map fun r => ⟨D.address j, r.fst, r.snd⟩ }

def step : NetworkEvent ι → Option (Network ι)
  | .announce i targets => some (announce P D s i targets)
  | .deliver k j now    => s.inFlight[k]?.bind fun d =>
      if (D.address j).host = d.host then some (deliver P D s k d j now) else none
  | .lose k             => s.inFlight[k]?.map fun _ => { s with inFlight := s.inFlight.eraseIdx k }
  | .duplicate k        => s.inFlight[k]?.map fun d => { s with inFlight := s.inFlight ++ [d] }
  | .inject datagram    => some { s with inFlight := s.inFlight ++ [datagram] }
  | .prune i now        =>
      let registry := ((PeerRegistry.pruneStale now).run (s.states i).registry).state
      some { s with states := Function.update s.states i { s.states i with registry } }

def machine : Machine (Network ι) (NetworkEvent ι) where
  Init s := s = {}
  step   := step P D

end Network
