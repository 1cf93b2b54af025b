import Peerc.Discovery.Network
import Peerc.Discovery.Theorems.Mdns
import Peerc.Lib.Json.Truncate

-- What devices that announce themselves lead each other to

theorem Str.encodeUtf8_take {s : Str} {b : Bytes} (hs : s.IsAscii) (h : s.encodeUtf8 = some b) (n : Nat) :
    Str.encodeUtf8 (s.take n) = some (b.take n) := by
  obtain ⟨he, rfl⟩ := Str.encodeUtf8_eq_some.mp h
  refine Str.encodeUtf8_eq_some.mpr ⟨fun c hc => he c (List.mem_of_mem_take hc), ?_⟩
  have hone (s : Str) (hs : s.IsAscii) : s.flatMap CodePoint.utf8 = s.map fun c => UInt8.ofNat c.val := by
    induction s
    case nil => rfl
    case cons c s hi =>
      obtain ⟨hc, hs⟩ := Str.isAscii_cons.mp hs
      rw [List.flatMap_cons, hi hs, CodePoint.utf8, if_pos hc]
      rfl
  rw [hone s hs, hone (s.take n) fun c hc => hs c (List.mem_of_mem_take hc), List.map_take]

namespace Discovery

variable {P : Primitives} {d : Discovery} {now : Clock} {data payload : Bytes} {addr : Address} {s : DiscoveryState}
  {reply : Bool}

-- The packet makes a device reply, if it is accepted.
def asksReply (P : Primitives) (data : Bytes) : Bool :=
  match readAnnounce P data with
  | .ok (some msg) => ((msg.get? (.ofString "reply")).getD (.bool true)).truthy
  | _              => false

-- Whatever the packet is, there is at most one reply, and only to a packet that asks for it.
theorem replies_handlePacket (P : Primitives) (d : Discovery) (now : Clock) (data : Bytes) (addr : Address)
    (s : DiscoveryState) :
    ((d.handlePacket P now data addr).run s).state.replies = s.replies ∨
    asksReply P data ∧ ∃ payload, d.buildPayload P false = .ok payload ∧
      ((d.handlePacket P now data addr).run s).state.replies = s.replies ++ [(addr.host, payload)] := by
  rcases hr : readAnnounce P data with e | _ | msg
  · simp only [handlePacket, EStateM.run_bind, hr]
    exact .inl rfl
  · simp only [handlePacket, EStateM.run_bind, hr]
    exact .inl rfl
  · simp only [handlePacket, EStateM.run_bind, hr, EStateM.run_liftM_ok]
    cases d.examine P msg addr.host
    case ignore | inconsistent => exact .inl rfl
    case accept a =>
      simp only [accept, EStateM.run_bind, EStateM.run_modify]
      cases ha : ((msg.get? (.ofString "reply")).getD (.bool true)).truthy
      case false => exact .inl rfl
      case true =>
        simp only [if_true, EStateM.run_bind]
        cases hp : d.buildPayload P false
        case error => exact .inl rfl
        case ok payload =>
          refine .inr ⟨?_, payload, rfl, rfl⟩
          rw [asksReply, hr]
          exact ha

-- A payload that was cut off is no announcement.
theorem asksReply_take (h : d.buildPayload P reply = .ok payload) {n : Nat} (hn : n < payload.length) :
    asksReply P (payload.take n) = false := by
  obtain ⟨t, hd, he⟩ := encodePacket_eq_ok.mp h
  have ha := Json.dumps_isAscii _ t hd
  have hr := Json.renders_dumps _ _ hd
  rw [← List.take_append_drop n t] at hr
  have hlen : n < t.length := Str.encodeUtf8_length ha he ▸ hn
  have hw : (d.announcement d.name reply).WellFormed := announcement_wellFormed
  obtain ⟨e, hl⟩ := Json.loads_truncated hw hr fun hx =>
    absurd (List.drop_eq_nil_iff.mp hx) (Nat.not_le.mpr hlen)
  have hta : Str.IsAscii (t.take n) := fun c hc => ha c (List.mem_of_mem_take hc)
  rw [asksReply, readAnnounce, Str.decodeUtf8_ascii hta (Str.encodeUtf8_take ha he n)]
  cases e <;> simp only [hl]

theorem asksReply_reply (h : d.buildPayload P false = .ok payload) (n : Nat) :
    asksReply P (payload.take n) = false := by
  by_cases hn : n < payload.length
  case pos => exact asksReply_take h hn
  case neg =>
    have hr : readAnnounce P payload = .ok (some (d.announcement d.name false)) := readAnnounce_announcement h
    rw [List.take_of_length_le (Nat.not_lt.mp hn), asksReply, hr]
    rfl

-- A device does not take in what it has announced itself.
theorem examine_own {d' : Discovery} {msg : Json} {host : Str} {a : Announcement}
    (h : d'.examine P msg host = .accept a) (ho : a.deviceId.val = d.peerId) : d.examine P msg host = .ignore := by
  unfold examine at h ⊢
  cases hid : nonemptyText? msg "device_id"
  case none => rfl
  case some deviceId =>
    cases hk : (nonemptyText? msg "public_key").bind fun s => Base64.decodeStrict s.val
    case none => rfl
    case some publicKey =>
      simp only [hid, hk] at h ⊢
      split at h
      case isTrue => cases h
      case isFalse hl =>
        split at h
        case isTrue => cases h
        case isFalse hs =>
          split at h
          case isTrue => cases h
          case isFalse =>
            split at h <;> cases h
            rw [if_neg hl, if_neg hs, if_pos ho]

theorem exists_buildPayload (h : 0 < d.tcpPort ∧ d.tcpPort < 65536) (reply : Bool) :
    ∃ payload, d.buildPayload P reply = .ok payload := by
  refine (encodePacket_announcement (a := d)).mpr ?_
  have hl : (decimal d.tcpPort.natAbs).length ≤ 5 := Json.decimal_length_le (by decide) (by omega)
  rw [Json.dumpsInt, if_pos (hl.trans (by decide))]
  rfl

variable {a : Discovery}

theorem run_acceptable (now : Clock) (addr : Address) (s : DiscoveryState) (h : Acceptable P d a)
    (hd : 0 < d.tcpPort ∧ d.tcpPort < 65536) (ha : a.buildPayload P reply = .ok data) :
    ∃ payload, d.buildPayload P false = .ok payload ∧
      (d.handlePacket P now data addr).run s = .ok () { s with
        registry := s.registry.upsert a.peerId (shownName a.name addr.host) addr.host a.tcpPort a.publicKey now
        replies  := s.replies ++ if reply then [(addr.host, payload)] else [] } := by
  obtain ⟨payload, hp⟩ := exists_buildPayload (P := P) hd false
  have hr : readAnnounce P data = .ok (some (a.announcement a.name reply)) := readAnnounce_announcement ha
  have ht : (((a.announcement a.name reply).get? (.ofString "reply")).getD (.bool true)).truthy = reply := rfl
  refine ⟨payload, hp, ?_⟩
  simp only [handlePacket, EStateM.run_bind, hr, EStateM.run_liftM_ok, examine_announcement h, ht, accept,
    EStateM.run_modify, h.join_peerId]
  cases reply
  case false =>
    simp only [Bool.false_eq_true, if_false, List.append_nil]
    rfl
  case true =>
    simp only [if_true, EStateM.run_bind, hp]
    rfl

theorem run_own (hn : d.peerId ≠ []) (hk : d.publicKey.length = 32) (hid : d.peerId = (P.sha256 d.publicKey).hex)
    (hp : 0 < d.tcpPort ∧ d.tcpPort < 65536) (ha : d.buildPayload P reply = .ok data) :
    (d.handlePacket P now data addr).run s = .ok () s := by
  have hr : readAnnounce P data = .ok (some (d.announcement d.name reply)) := readAnnounce_announcement ha
  have hacc : Acceptable P { d with peerId := [] } d := ⟨hn, hk, hid, hn, hp⟩
  have he : d.examine P (d.announcement d.name reply) addr.host = .ignore :=
    examine_own (examine_announcement hacc) hacc.join_peerId
  simp only [handlePacket, EStateM.run_bind, hr, EStateM.run_liftM_ok, he]
  rfl

end Discovery

namespace Network

open Discovery

variable {ι : Type} [DecidableEq ι] {P : Primitives} {D : Devices ι} {s s' : Network ι} {d : Datagram} {k : Nat}
  {i j : ι} {now : Clock}

-- What the network does with the datagrams
inductive Transit (ι : Type)
  | deliver (k : Nat) (j : ι) (now : Clock)
  | lose (k : Nat)

def Transit.event : Transit ι → NetworkEvent ι
  | deliver k j now => .deliver k j now
  | lose k          => .lose k

def transits (P : Primitives) (D : Devices ι) : Machine (Network ι) (Transit ι) where
  Init _   := True
  step s t := step P D s t.event

-- The deliveries that a datagram can lead to
def weight (P : Primitives) (d : Datagram) : Nat :=
  if asksReply P (d.data.take receiveSize) then 2 else 1

def load (P : Primitives) (s : Network ι) : Nat :=
  (s.inFlight.map (weight P)).sum

theorem weight_pos (d : Datagram) : 1 ≤ weight P d ∧ weight P d ≤ 2 := by
  unfold weight
  split <;> decide

theorem length_le_weight (ds : List Datagram) :
    ds.length ≤ (ds.map (weight P)).sum ∧ (ds.map (weight P)).sum ≤ 2 * ds.length := by
  induction ds
  case nil => exact ⟨Nat.le_refl _, Nat.le_refl _⟩
  case cons d ds hi =>
    have hd := weight_pos (P := P) d
    simp only [List.map_cons, List.sum_cons, List.length_cons]
    omega

theorem perm_eraseIdx {ds : List Datagram} (h : ds[k]? = some d) : (d :: ds.eraseIdx k).Perm ds := by
  obtain ⟨hk, rfl⟩ := List.getElem?_eq_some_iff.mp h
  exact List.getElem_cons_eraseIdx_perm hk

theorem load_deliver (h : s.inFlight[k]? = some d) : load P (deliver P D s k d j now) < load P s := by
  have hsum := ((perm_eraseIdx h).map (weight P)).sum_eq
  simp only [List.map_cons, List.sum_cons] at hsum
  have hpos := weight_pos (P := P) d
  simp only [load, deliver, List.map_append, List.sum_append]
  obtain hr | ⟨hask, payload, hp, hr⟩ :=
    (D.node j).replies_handlePacket P now (d.data.take receiveSize) d.source (s.states j) <;> rw [hr]
  · simp only [List.drop_length, List.map_nil, List.sum_nil]
    omega
  · have hd : weight P d = 2 := if_pos hask
    have hreply : weight P ⟨D.address j, d.source.host, payload⟩ = 1 := by
      rw [weight, asksReply_reply hp]
      rfl
    simp only [List.drop_left, List.map_cons, List.map_nil, List.sum_singleton, hreply]
    omega

theorem load_transit {t : Transit ι} (hs : (transits P D).step s t = some s') : load P s' < load P s := by
  cases t
  case deliver k j now =>
    obtain ⟨d, hd, hs⟩ := Option.bind_eq_some_iff.mp hs
    obtain ⟨-, hs⟩ := Option.ite_none_right_eq_some.mp hs
    cases hs
    exact load_deliver hd
  case lose k =>
    obtain ⟨d, hd, rfl⟩ := Option.map_eq_some_iff.mp hs
    have hsum := ((perm_eraseIdx hd).map (weight P)).sum_eq
    simp only [List.map_cons, List.sum_cons] at hsum
    have hpos := weight_pos (P := P) d
    simp only [load]
    omega

theorem load_exec (ts : List (Transit ι)) (h : (transits P D).exec (fun _ _ => True) s ts = some s') :
    ts.length + load P s' ≤ load P s := by
  induction ts generalizing s
  case nil =>
    cases h
    simp
  case cons t ts hi =>
    obtain ⟨-, h⟩ := Option.ite_none_right_eq_some.mp h
    obtain ⟨s₁, hs, h⟩ := Option.bind_eq_some_iff.mp h
    have hlt := load_transit hs
    have hle := hi h
    rw [List.length_cons]
    omega

end Network

-- Whatever is in flight, genuine or not: the devices answer at most one datagram for each that is, so that the
-- network comes to rest unless somebody sends again.
open Network in
theorem discovery_no_reply_storm {ι : Type} [DecidableEq ι] (P : Primitives) (D : Devices ι) (s s' : Network ι)
    (ts : List (Transit ι)) (h : (transits P D).exec (fun _ _ => True) s ts = some s') :
    ts.length + s'.inFlight.length ≤ 2 * s.inFlight.length := by
  have hload := load_exec ts h
  have hs := (length_le_weight (P := P) s.inFlight).right
  have hs' := (length_le_weight (P := P) s'.inFlight).left
  simp only [load] at hload
  omega

namespace DiscoverySystem.Lan

-- Two devices

def thirdKey : Bytes :=
  List.replicate 32 8

def third : Discovery where
  peerId    := thirdKey.hex
  name      := Str.ofString "Third"
  tcpPort   := 5657
  publicKey := thirdKey

def addr' : Address where
  host    := Str.ofString "192.168.1.51"
  host_ne := by decide

def devices : Devices Bool where
  node i    := if i then third else other
  address i := if i then addr' else addr

end DiscoverySystem.Lan

open Network DiscoverySystem.Lan in
theorem discovery_no_reply_storm_lan : ∃ s s' ts,
    (transits .transparent devices).exec (fun _ _ => True) s ts = some s' ∧
    s.inFlight.length = 1 ∧ ts.length = 2 ∧ ts.length + s'.inFlight.length ≤ 2 * s.inFlight.length := by
  let s : Network Bool := announce .transparent devices {} false [true]
  let ts : List (Transit Bool) := [.deliver 0 true one, .deliver 0 false two]
  have h : ((transits .transparent devices).exec (fun _ _ => True) s ts).isSome := by decide +kernel
  obtain ⟨s', hs⟩ := Option.isSome_iff_exists.mp h
  exact ⟨s, s', ts, hs, by decide +kernel, rfl, discovery_no_reply_storm .transparent devices s s' ts hs⟩

namespace Network

open Discovery

variable {ι : Type} {P : Primitives} {D : Devices ι} {s s' : Network ι} {d : Datagram} {k : Nat} {i j : ι}
  {now : Clock} {reply : Bool}

-- The devices are what they announce, and their announcements are received as a whole.
structure Genuine (P : Primitives) (D : Devices ι) : Prop where
  named    : ∀ i, (D.node i).peerId ≠ []
  key      : ∀ i, (D.node i).publicKey.length = 32
  peerId   : ∀ i, (D.node i).peerId = (P.sha256 (D.node i).publicKey).hex
  port     : ∀ i, 0 < (D.node i).tcpPort ∧ (D.node i).tcpPort < 65536
  distinct : Function.Injective fun i => (D.node i).peerId
  fits     : ∀ i reply payload, (D.node i).buildPayload P reply = .ok payload → payload.length ≤ receiveSize

theorem Genuine.acceptable (h : Genuine P D) (hij : i ≠ j) : Acceptable P (D.node j) (D.node i) :=
  ⟨h.named i, h.key i, h.peerId i, fun he => hij (h.distinct he), h.port i⟩

-- How a device is registered by the others
def entry (D : Devices ι) (i : ι) (lastSeen : Clock) : Peer where
  peerId    := (D.node i).peerId
  name      := shownName (D.node i).name (D.address i).host
  ip        := (D.address i).host
  tcpPort   := (D.node i).tcpPort
  publicKey := (D.node i).publicKey
  lastSeen  := lastSeen

structure Sent (P : Primitives) (D : Devices ι) (i : ι) (reply : Bool) (d : Datagram) : Prop where
  source : d.source = D.address i
  data   : (D.node i).buildPayload P reply = .ok d.data

theorem Sent.take_data (h : Sent P D i reply d) (hD : Genuine P D) : d.data.take receiveSize = d.data :=
  List.take_of_length_le (hD.fits i reply d.data h.data)

theorem entry_ne_nil (hD : Genuine P D) (i : ι) : (D.node i).publicKey ≠ [] := by
  intro hn
  have hl := hD.key i
  rw [hn] at hl
  cases hl

-- Nobody else sends.
def Closed (_ : Network ι) : NetworkEvent ι → Prop
  | .inject _                                                      => False
  | .announce .. | .deliver .. | .lose _ | .duplicate _ | .prune .. => True

instance decidableClosed (s : Network ι) : DecidablePred (Closed s)
  | .inject _                                                      => inferInstanceAs (Decidable False)
  | .announce .. | .deliver .. | .lose _ | .duplicate _ | .prune .. => inferInstanceAs (Decidable True)

structure Inv (P : Primitives) (D : Devices ι) (s : Network ι) : Prop where
  sent      : ∀ d ∈ s.inFlight, ∃ i reply, Sent P D i reply d
  addressed : ∀ d ∈ s.inFlight, ∃ j, d.host = (D.address j).host
  calm      : ∀ i, (s.states i).events = []
  truthful  : ∀ i id p, (s.states i).registry.peers.find? id = some p → ∃ j, j ≠ i ∧ p = entry D j p.lastSeen

theorem Inv.init : Inv P D {} where
  sent      := List.forall_mem_nil _
  addressed := List.forall_mem_nil _
  calm _    := rfl
  truthful _ _ _ h := by cases h

theorem Inv.announce (h : Inv P D s) (i : ι) (targets : List ι) : Inv P D (announce P D s i targets) := by
  unfold Network.announce
  cases hp : (D.node i).buildPayload P true
  case error => exact h
  case ok payload =>
    constructor
    case calm => exact h.calm
    case truthful => exact h.truthful
    all_goals
      intro d hd
      obtain hd | hd := List.mem_append.mp hd
    case sent.inl => exact h.sent d hd
    case addressed.inl => exact h.addressed d hd
    all_goals obtain ⟨j, -, rfl⟩ := List.mem_map.mp hd
    case sent.inr => exact ⟨i, true, rfl, hp⟩
    case addressed.inr => exact ⟨j, rfl⟩

theorem Inv.eraseIdx (h : Inv P D s) (k : Nat) : Inv P D { s with inFlight := s.inFlight.eraseIdx k } where
  sent d hd      := h.sent d (List.mem_of_mem_eraseIdx hd)
  addressed d hd := h.addressed d (List.mem_of_mem_eraseIdx hd)
  calm           := h.calm
  truthful       := h.truthful

variable [DecidableEq ι]

theorem deliver_own (h : Sent P D j reply d) (hD : Genuine P D) :
    deliver P D s k d j now = { s with inFlight := s.inFlight.eraseIdx k } := by
  have hr : ((D.node j).handlePacket P now d.data d.source).run (s.states j) = .ok () (s.states j) :=
    run_own (hD.named j) (hD.key j) (hD.peerId j) (hD.port j) h.data
  simp only [deliver, h.take_data hD, hr, EStateM.Result.state, List.drop_length, List.map_nil, List.append_nil,
    Function.update_eq_self]

theorem deliver_sent (s : Network ι) (k : Nat) (now : Clock) (h : Sent P D i reply d) (hD : Genuine P D)
    (hij : i ≠ j) :
    ∃ d', Sent P D j false d' ∧ d'.host = (D.address i).host ∧
      (deliver P D s k d j now).inFlight = s.inFlight.eraseIdx k ++ (if reply then [d'] else []) ∧
      ((deliver P D s k d j now).states j).events = (s.states j).events ∧
      ((deliver P D s k d j now).states j).registry =
        (s.states j).registry.upsert (D.node i).peerId (shownName (D.node i).name (D.address i).host)
          (D.address i).host (D.node i).tcpPort (D.node i).publicKey now := by
  obtain ⟨payload, hp, hr⟩ :=
    run_acceptable now (D.address i) (s.states j) (hD.acceptable hij) (hD.port j) h.data
  refine ⟨⟨D.address j, (D.address i).host, payload⟩, ⟨rfl, hp⟩, rfl, ?_, ?_, ?_⟩ <;>
    simp only [deliver, h.take_data hD, h.source, hr, EStateM.Result.state, Function.update_self]
  cases reply <;> simp

theorem states_deliver {x : ι} (hx : x ≠ j) : (deliver P D s k d j now).states x = s.states x := by
  simp only [deliver, Function.update_of_ne hx]

theorem find?_deliver (h : Sent P D i reply d) (hD : Genuine P D) (hij : i ≠ j) (id : Str) :
    ((deliver P D s k d j now).states j).registry.peers.find? id =
      if id = (D.node i).peerId then some (entry D i now) else (s.states j).registry.peers.find? id := by
  obtain ⟨-, -, -, -, -, hr⟩ := deliver_sent s k now h hD hij
  rw [hr, PeerRegistry.find?_upsert (entry_ne_nil hD i)]
  rfl

theorem Inv.deliver (h : Inv P D s) (hD : Genuine P D) (hd : s.inFlight[k]? = some d) (j : ι) (now : Clock) :
    Inv P D (Network.deliver P D s k d j now) := by
  obtain ⟨i, reply, hsent⟩ := h.sent d (List.mem_of_getElem? hd)
  by_cases hij : i = j
  case pos =>
    subst hij
    rw [deliver_own hsent hD]
    exact h.eraseIdx k
  case neg =>
    obtain ⟨d', hd', hhost, hflight, hevents, -⟩ := deliver_sent s k now hsent hD hij
    have hmem {e} (he : e ∈ (Network.deliver P D s k d j now).inFlight) : e ∈ s.inFlight ∨ e = d' := by
      rw [hflight, List.mem_append] at he
      obtain he | he := he
      · exact .inl (List.mem_of_mem_eraseIdx he)
      · cases reply
        · cases he
        · exact .inr (List.mem_singleton.mp he)
    constructor
    case sent =>
      intro e he
      obtain he | rfl := hmem he
      · exact h.sent e he
      · exact ⟨j, false, hd'⟩
    case addressed =>
      intro e he
      obtain he | rfl := hmem he
      · exact h.addressed e he
      · exact ⟨i, hhost⟩
    case calm =>
      intro x
      by_cases hx : x = j
      · rw [hx, hevents]
        exact h.calm j
      · rw [states_deliver hx]
        exact h.calm x
    case truthful =>
      intro x id p hp
      by_cases hx : x = j
      case neg =>
        rw [states_deliver hx] at hp
        exact h.truthful x id p hp
      case pos =>
        subst hx
        rw [find?_deliver hsent hD hij] at hp
        split at hp
        case isTrue =>
          cases hp
          exact ⟨i, hij, rfl⟩
        case isFalse => exact h.truthful x id p hp

theorem Inv.prune (h : Inv P D s) (i : ι) (now : Clock) (hs : step P D s (.prune i now) = some s') : Inv P D s' := by
  cases hs
  obtain ⟨r, hr, hfind, -⟩ := PeerRegistry.run_pruneStale now (s.states i).registry
  refine ⟨h.sent, h.addressed, fun x => ?_, fun x id p hp => ?_⟩
  · by_cases hx : x = i
    · subst hx
      dsimp only
      rw [Function.update_self]
      exact h.calm x
    · dsimp only
      rw [Function.update_of_ne hx]
      exact h.calm x
  · dsimp only at hp
    by_cases hx : x = i
    · subst hx
      rw [Function.update_self, hr] at hp
      exact h.truthful x id p ((hfind id p).mp hp).left
    · rw [Function.update_of_ne hx] at hp
      exact h.truthful x id p hp

theorem Inv.step (h : Inv P D s) (hD : Genuine P D) {e : NetworkEvent ι} (hg : Closed s e)
    (hs : step P D s e = some s') : Inv P D s' := by
  cases e
  case announce i targets =>
    cases hs
    exact h.announce i targets
  case deliver k j now =>
    obtain ⟨d, hd, hs⟩ := Option.bind_eq_some_iff.mp hs
    obtain ⟨-, hs⟩ := Option.ite_none_right_eq_some.mp hs
    cases hs
    exact h.deliver hD hd j now
  case lose k =>
    obtain ⟨d, -, rfl⟩ := Option.map_eq_some_iff.mp hs
    exact h.eraseIdx k
  case duplicate k =>
    obtain ⟨d, hd, rfl⟩ := Option.map_eq_some_iff.mp hs
    have hmem {e} (he : e ∈ s.inFlight ++ [d]) : e ∈ s.inFlight := by
      obtain he | he := List.mem_append.mp he
      · exact he
      · exact List.mem_singleton.mp he ▸ List.mem_of_getElem? hd
    exact ⟨fun e he => h.sent e (hmem he), fun e he => h.addressed e (hmem he), h.calm, h.truthful⟩
  case inject => cases hg
  case prune i now => exact h.prune i now hs

end Network

-- However datagrams are lost, repeated and reordered: the devices raise no alarm about each other, and register
-- nothing but each other, under the address, the port and the key that they have.
open Network in
theorem discovery_registry_truthful {ι : Type} [DecidableEq ι] (P : Primitives) (D : Devices ι) (hD : Genuine P D)
    (s : Network ι) (run : (machine P D).Run Closed s) (i : ι) : (s.states i).events = [] ∧
      ∀ p ∈ (s.states i).registry.peers.rows, ∃ j, j ≠ i ∧ p = entry D j p.lastSeen := by
  have h : Inv P D s := by
    refine run.invariant ?_ fun h hg hs => h.step hD hg hs
    rintro _ rfl
    exact .init
  exact ⟨h.calm i, fun p hp => h.truthful i p.peerId p (Table.find?_of_mem hp)⟩

open Network DiscoverySystem.Lan in
theorem genuine_devices : Genuine .transparent devices where
  named    := by decide +kernel
  key      := by decide +kernel
  peerId   := by decide +kernel
  port     := by decide +kernel
  distinct := by
    intro i j h
    cases i <;> cases j <;> first | rfl | exact absurd h (by decide +kernel)
  fits     := by
    have hfits : ∀ i reply, ((devices.node i).buildPayload .transparent reply).toOption.all
        (·.length ≤ receiveSize) := by decide +kernel
    intro i reply payload h
    have hl := hfits i reply
    rw [h] at hl
    exact of_decide_eq_true hl

open Network DiscoverySystem.Lan in
theorem discovery_registry_truthful_lan : ∃ s, (machine .transparent devices).Run Closed s ∧
    ∃ p ∈ (s.states true).registry.peers.rows, ∃ j, j ≠ true ∧ p = entry devices j p.lastSeen := by
  have h₀ : (machine .transparent devices).Run Closed {} := .init rfl
  obtain ⟨s, run, hs⟩ := h₀.exec_any (p := fun s => (s.states true).registry.peers.rows ≠ [])
    [.announce false [true, false], .duplicate 0, .deliver 2 true one, .lose 0] (by decide +kernel)
  obtain ⟨p, hp⟩ := List.exists_mem_of_ne_nil _ (of_decide_eq_true hs)
  exact ⟨s, run, p, hp, (discovery_registry_truthful .transparent devices genuine_devices s run true).right p hp⟩

namespace Network

open Discovery

variable {ι : Type} {P : Primitives} {D : Devices ι} {s s' : Network ι} {d : Datagram} {k : Nat} {i j : ι}

def Knows (D : Devices ι) (s : Network ι) (i j : ι) : Prop :=
  ∃ lastSeen, (s.states i).registry.peers.find? (D.node j).peerId = some (entry D j lastSeen)

def Underway (P : Primitives) (D : Devices ι) (s : Network ι) (i j : ι) (reply : Bool) : Prop :=
  ∃ d ∈ s.inFlight, Sent P D i reply d ∧ d.host = (D.address j).host

-- An announcement is underway, or it has arrived and its answer is underway or has arrived, too.
def Meets (P : Primitives) (D : Devices ι) (s : Network ι) (i j : ι) : Prop :=
  Underway P D s i j true ∨ Knows D s j i ∧ (Underway P D s j i false ∨ Knows D s i j)

-- Nothing is lost, forged or forgotten.
def Lossless (_ : Network ι) : NetworkEvent ι → Prop
  | .announce .. | .deliver .. | .duplicate _ => True
  | .lose _ | .inject _ | .prune ..           => False

instance decidableLossless (s : Network ι) : DecidablePred (Lossless s)
  | .announce .. | .deliver .. | .duplicate _ => inferInstanceAs (Decidable True)
  | .lose _ | .inject _ | .prune ..           => inferInstanceAs (Decidable False)

theorem Lossless.closed {e : NetworkEvent ι} (h : Lossless s e) : Closed s e := by
  cases e
  case inject => exact h
  all_goals trivial

theorem Underway.mono {reply : Bool} (h : Underway P D s i j reply) (hs : s.inFlight ⊆ s'.inFlight) :
    Underway P D s' i j reply := by
  obtain ⟨d, hd, hsent⟩ := h
  exact ⟨d, hs hd, hsent⟩

-- More is in flight.
theorem Meets.mono (h : Meets P D s i j) (hs : s.inFlight ⊆ s'.inFlight) (hstates : s'.states = s.states) :
    Meets P D s' i j := by
  have hknows {x y} (hk : Knows D s x y) : Knows D s' x y := by rwa [Knows, hstates]
  obtain h | ⟨hji, h | hij⟩ := h
  · exact .inl (h.mono hs)
  · exact .inr ⟨hknows hji, .inl (h.mono hs)⟩
  · exact .inr ⟨hknows hji, .inr (hknows hij)⟩

structure Mutual (P : Primitives) (D : Devices ι) (s : Network ι) : Prop extends Inv P D s where
  meets : ∀ i j, (i, j) ∈ s.announced → i ≠ j → Meets P D s i j

theorem Mutual.announce (h : Mutual P D s) (i : ι) (targets : List ι) :
    Mutual P D (announce P D s i targets) := by
  refine ⟨h.toInv.announce i targets, fun x y hxy hne => ?_⟩
  unfold Network.announce at hxy ⊢
  cases hp : (D.node i).buildPayload P true
  case error =>
    rw [hp] at hxy
    exact h.meets x y hxy hne
  case ok payload =>
    rw [hp] at hxy
    obtain hxy | hxy := List.mem_append.mp hxy
    · exact (h.meets x y hxy hne).mono (List.subset_append_left _ _) rfl
    · obtain ⟨j, hj, he⟩ := List.mem_map.mp hxy
      cases he
      exact .inl ⟨_, List.mem_append_right _ (List.mem_map_of_mem hj), ⟨rfl, hp⟩, rfl⟩

variable [DecidableEq ι]

theorem Knows.deliver {x y z : ι} {reply : Bool} {now : Clock} (h : Knows D s x y) (hD : Genuine P D)
    (hsent : Sent P D i reply d) : Knows D (Network.deliver P D s k d z now) x y := by
  obtain ⟨t, ht⟩ := h
  by_cases hx : x = z
  case neg => exact ⟨t, by rwa [states_deliver hx]⟩
  case pos =>
    subst hx
    by_cases hi : i = x
    case pos =>
      subst hi
      rw [deliver_own hsent hD]
      exact ⟨t, ht⟩
    case neg =>
      by_cases hy : (D.node y).peerId = (D.node i).peerId
      case pos =>
        obtain rfl := hD.distinct hy
        exact ⟨now, by rw [find?_deliver hsent hD hi, if_pos rfl]⟩
      case neg => exact ⟨t, by rwa [find?_deliver hsent hD hi, if_neg hy]⟩

-- The device that a datagram is for knows its sender afterwards.
theorem knows_deliver {reply : Bool} {now : Clock} (hsent : Sent P D i reply d) (hD : Genuine P D) (hij : i ≠ j) :
    Knows D (Network.deliver P D s k d j now) j i :=
  ⟨now, by rw [find?_deliver hsent hD hij, if_pos rfl]⟩

theorem Meets.deliver {z : ι} {now : Clock} (h : Meets P D s i j) (hD : Genuine P D)
    (haddr : Function.Injective fun i => (D.address i).host) (hij : i ≠ j) {x : ι} {reply : Bool}
    (hx : Sent P D x reply d) (hd : s.inFlight[k]? = some d) (hhost : (D.address z).host = d.host) :
    Meets P D (Network.deliver P D s k d z now) i j := by
  -- What is underway stays so, or it is what arrives.
  have hunder {i j reply} (hu : Underway P D s i j reply) :
      Underway P D (Network.deliver P D s k d z now) i j reply ∨ Sent P D i reply d ∧ z = j := by
    obtain ⟨e, he, hsent, hehost⟩ := hu
    obtain rfl | he := List.mem_cons.mp ((perm_eraseIdx hd).symm.subset he)
    · exact .inr ⟨hsent, haddr (hhost.trans hehost)⟩
    · exact .inl ⟨e, List.mem_append_left _ he, hsent, hehost⟩
  obtain h | ⟨hji, h | hknows⟩ := h
  · obtain h | ⟨hsent, rfl⟩ := hunder h
    · exact .inl h
    · obtain ⟨d', hd', hback, hflight, -, -⟩ := deliver_sent s k now hsent hD hij
      refine .inr ⟨knows_deliver hsent hD hij, .inl ⟨d', ?_, hd', hback⟩⟩
      rw [hflight]
      exact List.mem_append_right _ (List.mem_singleton_self d')
  · refine .inr ⟨hji.deliver hD hx, ?_⟩
    obtain h | ⟨hsent, rfl⟩ := hunder h
    · exact .inl h
    · exact .inr (knows_deliver hsent hD hij.symm)
  · exact .inr ⟨hji.deliver hD hx, .inr (hknows.deliver hD hx)⟩

theorem Mutual.step (h : Mutual P D s) (hD : Genuine P D) (haddr : Function.Injective fun i => (D.address i).host)
    {e : NetworkEvent ι} (hg : Lossless s e) (hs : step P D s e = some s') : Mutual P D s' := by
  have hi := h.toInv.step hD hg.closed hs
  cases e
  case announce i targets =>
    cases hs
    exact h.announce i targets
  case deliver k z now =>
    obtain ⟨d, hd, hs⟩ := Option.bind_eq_some_iff.mp hs
    obtain ⟨hhost, hs⟩ := Option.ite_none_right_eq_some.mp hs
    cases hs
    obtain ⟨x, reply, hx⟩ := h.sent d (List.mem_of_getElem? hd)
    exact ⟨hi, fun i j hij hne => (h.meets i j hij hne).deliver hD haddr hne hx hd hhost⟩
  case duplicate k =>
    obtain ⟨d, -, rfl⟩ := Option.map_eq_some_iff.mp hs
    exact ⟨hi, fun i j hij hne => (h.meets i j hij hne).mono (List.subset_append_left _ _) rfl⟩
  case lose | inject | prune => cases hg

theorem mutual_of_run (hD : Genuine P D) (haddr : Function.Injective fun i => (D.address i).host)
    (run : (machine P D).Run Lossless s) : Mutual P D s := by
  refine run.invariant ?_ fun h hg hs => h.step hD haddr hg hs
  rintro _ rfl
  exact ⟨.init, fun i j hij => by cases hij⟩

-- What is in flight can be delivered.
theorem exists_rest (hD : Genuine P D) (haddr : Function.Injective fun i => (D.address i).host)
    (run : (machine P D).Run Lossless s) :
    ∃ ts s', (transits P D).exec (fun _ _ => True) s ts = some s' ∧ (machine P D).Run Lossless s' ∧
      s'.inFlight = [] ∧ s'.announced = s.announced := by
  induction hn : load P s using Nat.strong_induction_on generalizing s
  case h n hi =>
    cases hf : s.inFlight
    case nil => exact ⟨[], s, rfl, run, hf, rfl⟩
    case cons d ds =>
      have hd : s.inFlight[0]? = some d := by rw [hf]; rfl
      obtain ⟨j, hj⟩ := (mutual_of_run hD haddr run).addressed d (List.mem_of_getElem? hd)
      let t : Transit ι := .deliver 0 j ⟨.zero, Double.isFinite_zero⟩
      have hs : (transits P D).step s t = some (deliver P D s 0 d j ⟨.zero, Double.isFinite_zero⟩) := by
        change s.inFlight[0]?.bind _ = _
        rw [hd, Option.bind_some, if_pos hj.symm]
      obtain ⟨ts, s', hts, hrun, hrest, hann⟩ := hi _ (hn ▸ load_transit hs) (run.step (e := t.event) trivial hs) rfl
      exact ⟨t :: ts, s', (Machine.exec_cons ts trivial hs).trans hts, hrun, hrest, hann⟩

end Network

-- Unless something is lost, the datagrams can all be delivered, and when they are, each two devices of which one
-- was to be reached by an announcement of the other one know each other.
open Network in
theorem discovery_mutual {ι : Type} [DecidableEq ι] (P : Primitives) (D : Devices ι) (hD : Genuine P D)
    (haddr : Function.Injective fun i => (D.address i).host) (s : Network ι) (run : (machine P D).Run Lossless s) :
    (∃ ts s', (transits P D).exec (fun _ _ => True) s ts = some s' ∧ (machine P D).Run Lossless s' ∧
      s'.inFlight = [] ∧ s'.announced = s.announced) ∧
    (s.inFlight = [] → ∀ i j, (i, j) ∈ s.announced → i ≠ j → Knows D s i j ∧ Knows D s j i) := by
  refine ⟨exists_rest hD haddr run, fun hrest i j hij hne => ?_⟩
  have hnone {i j reply} : ¬Underway P D s i j reply := by
    rintro ⟨d, hd, -⟩
    rw [hrest] at hd
    cases hd
  obtain h | ⟨hji, h | hknows⟩ := (mutual_of_run hD haddr run).meets i j hij hne
  · exact absurd h hnone
  · exact absurd h hnone
  · exact ⟨hknows, hji⟩

open Network DiscoverySystem.Lan in
theorem discovery_mutual_lan : ∃ s, (machine .transparent devices).Run Lossless s ∧ s.inFlight = [] ∧
    Knows devices s false true ∧ Knows devices s true false := by
  have h₀ : (machine .transparent devices).Run Lossless {} := .init rfl
  have haddr : Function.Injective fun i => (devices.address i).host := by
    intro i j h
    cases i <;> cases j <;> first | rfl | exact absurd h (by decide +kernel)
  obtain ⟨s, run, hs⟩ := h₀.exec_any (p := fun s => s.inFlight = [] ∧ s.announced = [(false, true)])
    [.announce false [true], .deliver 0 true one, .deliver 0 false two] (by decide +kernel)
  obtain ⟨hrest, hann⟩ := of_decide_eq_true hs
  refine ⟨s, run, hrest, ?_⟩
  exact (discovery_mutual .transparent devices genuine_devices haddr s run).right hrest false true
    (by rw [hann]; exact List.mem_singleton_self _) (by decide)
