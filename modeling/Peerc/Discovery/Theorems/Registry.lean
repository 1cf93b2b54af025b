import Peerc.Discovery.Effect

-- The registry over whole runs

structure Peer.Valid (P : Primitives) (d : Discovery) (p : Peer) : Prop where
  key     : p.publicKey.length = 32
  peerId  : p.peerId = (P.sha256 p.publicKey).hex
  foreign : p.peerId ≠ d.peerId
  port    : 1 ≤ p.tcpPort ∧ p.tcpPort ≤ 65535
  name    : p.name ≠ [] ∧ p.name.length ≤ 64

theorem Discovery.Accepts.valid {P : Primitives} {d : Discovery} {msg : Json} {addr : Address}
    {a : Announcement} (now : Clock) (h : Accepts P d msg addr.host a) :
    Peer.Valid P d ⟨a.deviceId.val, a.name, addr.host, a.tcpPort, a.publicKey, now⟩ where
  key     := h.key
  peerId  := h.deviceId
  foreign := h.foreign
  port    := ⟨h.port.left, Int.le_of_lt_add_one h.port.right⟩
  name    := h.name ▸ ⟨nameOf_ne_nil addr.host_ne, nameOf_length_le⟩

namespace DiscoverySystem

open PeerRegistry

variable {P : Primitives} {d : Discovery} {s s' : DiscoverySystem} {e : DiscoveryEvent} {now : Clock}

-- A valid peer that was last seen in the past
structure Known (P : Primitives) (d : Discovery) (clock : Clock) (p : Peer) : Prop where
  valid : p.Valid P d
  seen  : p.lastSeen.val.units ≤ clock.val.units

def Inv (P : Primitives) (d : Discovery) (s : DiscoverySystem) : Prop :=
  s.registry.Sound (Known P d s.clock)

theorem Inv.later (h : Inv P d s) (hf : s.clock.val.units ≤ now.val.units) :
    s.registry.Sound (Known P d now) :=
  h.mono fun _ hp => ⟨hp.valid, hp.seen.trans hf⟩

theorem Inv.init (h : (machine P d).Init s) : Inv P d s := by
  rw [Inv, show s.toDiscoveryState = {} from h]
  exact .empty

theorem Inv.step (h : Inv P d s) (hf : Forward s e) (hs : (machine P d).step s e = some s') :
    Inv P d s' := by
  cases e
  case packet now data addr =>
    have h := h.later hf
    cases hs
    rcases d.registry_handlePacket P now data addr s.toDiscoveryState with hr | ⟨msg, a, ha, hr⟩
    · rw [Inv, hr]
      exact h
    · rw [Inv, hr]
      have hk : a.publicKey ≠ [] := fun hn => by
        have hl := ha.key
        rw [hn] at hl
        cases hl
      exact h.upsert hk ⟨ha.valid now, le_refl _⟩
  case prune now =>
    obtain ⟨r, hr, -, hsound⟩ := run_pruneStale now s.registry
    cases hs
    rw [Inv, hr]
    exact hsound _ (h.later hf)

theorem inv_of_run (run : (machine P d).Run Forward s) : Inv P d s :=
  run.invariant .init .step

-- After a pruning nobody has been silent for too long.
theorem age_le_of_prune (h : Inv P d s) (hf : Forward s (.prune now))
    (hs : (machine P d).step s (.prune now) = some s') :
    ∀ p ∈ s'.registry.peers.rows, 0 ≤ Double.subUnits now.val p.lastSeen.val ∧
      Double.subUnits now.val p.lastSeen.val ≤ peerTimeout.units := by
  obtain ⟨r, hr, hfind, -⟩ := run_pruneStale now s.registry
  cases hs
  intro p hp
  rw [hr] at hp
  obtain ⟨hf', hst⟩ := (hfind _ p).mp (Table.find?_of_mem hp)
  have hseen : p.lastSeen.val.units ≤ now.val.units := (h.peers hf').seen.trans hf
  refine ⟨Double.roundUnits_nonneg (by omega), ?_⟩
  simpa [isStale] using hst

end DiscoverySystem

-- For every sequence of packets and prunings along a clock that does not go back: the peers are valid,
-- the notifications about each peer alternate and tell whether it is registered, and a pruning leaves no
-- peer that is older than the timeout.
open DiscoverySystem Presence in
theorem discovery_registry_invariant {P : Primitives} {d : Discovery} {s : DiscoverySystem}
    (run : (machine P d).Run Forward s) :
    (∀ p ∈ s.registry.peers.rows, p.Valid P d) ∧
    (∀ id, Alternating (changes s.registry.log id) ∧
      ((∃ p ∈ s.registry.peers.rows, p.peerId = id) ↔
        (changes s.registry.log id).getLast? = some .arrived)) ∧
    ∀ now s', Forward s (.prune now) → (machine P d).step s (.prune now) = some s' →
      ∀ p ∈ s'.registry.peers.rows, 0 ≤ Double.subUnits now.val p.lastSeen.val ∧
        Double.subUnits now.val p.lastSeen.val ≤ PeerRegistry.peerTimeout.units := by
  have h := inv_of_run run
  refine ⟨fun p hp => (h.peers (Table.find?_of_mem hp)).valid, fun id => ⟨?_, ?_⟩, ?_⟩
  · exact h.logged.alternating id
  · rw [← h.logged.present_iff id]
    constructor
    · rintro ⟨p, hp, rfl⟩
      rw [Table.find?_of_mem hp]
      rfl
    · intro hs
      obtain ⟨p, hf⟩ := Option.isSome_iff_exists.mp hs
      exact ⟨p, Table.mem_of_find? hf, Table.key_of_find? hf⟩
  · exact fun now s' hf hs => age_le_of_prune h hf hs

namespace DiscoverySystem.Lan

-- Another device announces itself.

def publicKey : Bytes :=
  List.replicate 32 7

def other : Discovery where
  peerId    := publicKey.hex
  name      := Str.ofString "Other"
  tcpPort   := 5656
  publicKey := publicKey

def me : Discovery where
  peerId    := Str.ofString "me"
  name      := Str.ofString "Me"
  tcpPort   := 5656
  publicKey := []

def packet : Bytes :=
  match other.buildPayload .transparent true with
  | .ok payload => payload
  | .error _    => []

def addr : Address where
  host    := Str.ofString "192.168.1.50"
  host_ne := by decide

-- 1.0, 2.0 and 32.0
def one : Clock := ⟨⟨0x3FF0000000000000⟩, by decide⟩

def two : Clock := ⟨⟨0x4000000000000000⟩, by decide⟩

def late : Clock := ⟨⟨0x4040000000000000⟩, by decide⟩

end DiscoverySystem.Lan

open DiscoverySystem Lan in
theorem discovery_registry_invariant_announced :
    ∃ s, (machine .transparent me).Run Forward s ∧ ∃ p ∈ s.registry.peers.rows, p.Valid .transparent me := by
  have h₀ : (machine .transparent me).Run Forward ⟨{}, one⟩ := .init rfl
  obtain ⟨s, hr, hs⟩ := h₀.exec_any (p := fun s => s.registry.peers.rows ≠ [])
    [.packet one packet addr, .prune two] (by decide +kernel)
  obtain ⟨p, hp⟩ := List.exists_mem_of_ne_nil _ (of_decide_eq_true hs)
  exact ⟨s, hr, p, hp, (discovery_registry_invariant hr).left p hp⟩

-- After half a minute of silence the peer is lost.
open DiscoverySystem Lan Presence in
example : ((machine .transparent me).exec Forward ⟨{}, one⟩ [.packet one packet addr, .prune late]).map
    (fun s => changes s.registry.log publicKey.hex) = some [.arrived, .departed] := by
  decide +kernel
