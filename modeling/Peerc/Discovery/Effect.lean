import Peerc.Discovery.Packet

-- What the calls do to the registry

def Notification.change : Notification → Str × Presence.Change
  | peerNew peer  => (peer.peerId, .arrived)
  | peerLost peer => (peer.peerId, .departed)

namespace PeerRegistry

open Presence

variable {r r' : PeerRegistry} {id peerId name ip : Str} {tcpPort : Int} {publicKey : Bytes} {now : Clock}
  {p : Peer} {Q Q' : Peer → Prop}

def log (r : PeerRegistry) : List (Str × Change) :=
  r.notifications.map (·.change)

-- A registry whose peers all have a property, and that has notified about each of them
structure Sound (Q : Peer → Prop) (r : PeerRegistry) : Prop where
  peers  : ∀ {id p}, r.peers.find? id = some p → Q p
  logged : Consistent (fun id => (r.peers.find? id).isSome) r.log

namespace Sound

theorem empty : Sound Q {} where
  peers h := nomatch h
  logged  := .init nofun

theorem mono (h : Sound Q r) (hq : ∀ p, Q p → Q' p) : Sound Q' r where
  peers hf := hq _ (h.peers hf)
  logged   := h.logged

end Sound

theorem find?_upsert (hk : publicKey ≠ []) :
    (r.upsert peerId name ip tcpPort publicKey now).peers.find? id =
      if id = peerId then some ⟨peerId, name, ip, tcpPort, publicKey, now⟩ else r.peers.find? id := by
  unfold upsert
  split
  case h_1 => exact Table.find?_replace
  case h_2 existing hf =>
    have he : existing.peerId = peerId := Table.key_of_find? hf
    rw [Table.find?_update]
    refine if_congr Iff.rfl ?_ rfl
    rw [hf, Option.map_some, he, if_pos hk]

theorem log_upsert : (r.upsert peerId name ip tcpPort publicKey now).log =
    if (r.peers.find? peerId).isSome then r.log else r.log ++ [(peerId, .arrived)] := by
  unfold upsert
  split
  case h_1 hf => rw [hf, log, List.map_append]; rfl
  case h_2 hf => rw [hf]; rfl

theorem Sound.upsert (h : Sound Q r) (hk : publicKey ≠ [])
    (hq : Q ⟨peerId, name, ip, tcpPort, publicKey, now⟩) :
    Sound Q (r.upsert peerId name ip tcpPort publicKey now) where
  peers {id p} hf := by
    rw [find?_upsert hk] at hf
    split at hf
    case isTrue => exact Option.some.inj hf ▸ hq
    case isFalse => exact h.peers hf
  logged := by
    rw [log_upsert]
    split
    case isTrue hs =>
      refine h.logged.congr fun id => ?_
      rw [find?_upsert hk]
      split
      case isTrue hid => simp [hid, hs]
      case isFalse => rfl
    case isFalse hs =>
      refine h.logged.arrive hs ?_ fun id hid => ?_
      · rw [find?_upsert hk, if_pos rfl]
        rfl
      · rw [find?_upsert hk, if_neg hid]

-- The registry after a peer has been popped and reported
def without (r : PeerRegistry) (p : Peer) : PeerRegistry where
  peers         := r.peers.erase p.peerId
  notifications := r.notifications ++ [.peerLost p]

theorem run_lose (h : r.peers.find? id = some p) : (lose id).run r = .ok () (r.without p) := by
  have hid : p.peerId = id := Table.key_of_find? h
  simp only [lose, EStateM.run_bind, EStateM.run_get, h, without, hid]
  rfl

theorem find?_without :
    (r.without p).peers.find? id = if id = p.peerId then none else r.peers.find? id :=
  Table.find?_erase

theorem Sound.without (h : Sound Q r) (hf : r.peers.find? p.peerId = some p) :
    Sound Q (r.without p) where
  peers {id q} hq := by
    rw [find?_without] at hq
    split at hq
    case isTrue => cases hq
    case isFalse => exact h.peers hq
  logged := by
    have hl : (r.without p).log = r.log ++ [(p.peerId, .departed)] := by
      rw [log, PeerRegistry.without, List.map_append]
      rfl
    rw [hl]
    refine h.logged.depart (by simp [hf]) ?_ fun id hid => ?_
    · rw [find?_without, if_pos rfl]
      rintro ⟨⟩
    · rw [find?_without, if_neg hid]

-- The loop of `prune_stale` finds each of its peers, since they are different.
theorem run_loseAll {ids : List Str} (hn : ids.Nodup) (hs : ∀ id ∈ ids, (r.peers.find? id).isSome) :
    ∃ r', (loseAll ids).run r = .ok () r' ∧
      (∀ id, r'.peers.find? id = if id ∈ ids then none else r.peers.find? id) ∧
      ∀ Q, Sound Q r → Sound Q r' := by
  induction ids generalizing r
  case nil => exact ⟨r, rfl, fun id => by simp, fun _ h => h⟩
  case cons id ids hi =>
    obtain ⟨hid, hn'⟩ := List.nodup_cons.mp hn
    obtain ⟨p, hf⟩ := Option.isSome_iff_exists.mp (hs id List.mem_cons_self)
    obtain rfl : p.peerId = id := Table.key_of_find? hf
    have hs' : ∀ id ∈ ids, ((r.without p).peers.find? id).isSome := by
      intro id hm
      have hne : id ≠ p.peerId := fun he => hid (he ▸ hm)
      rw [find?_without, if_neg hne]
      exact hs id (List.mem_cons_of_mem _ hm)
    obtain ⟨r', hr, hfind, hsound⟩ := hi hn' hs'
    refine ⟨r', ?_, fun id => ?_, fun Q h => hsound Q (h.without hf)⟩
    · rw [loseAll, EStateM.run_bind, run_lose hf]
      exact hr
    · rw [hfind, find?_without]
      by_cases he : id = p.peerId <;> simp [he]

theorem mem_staleIds (h : r.peers.find? id = some p) : id ∈ r.staleIds now ↔ isStale now p := by
  have hid : p.peerId = id := Table.key_of_find? h
  simp only [staleIds, List.mem_map, List.mem_filter]
  constructor
  · rintro ⟨q, ⟨hq, hs⟩, he⟩
    have hf := Table.find?_of_mem hq
    rw [he, h] at hf
    exact Option.some.inj hf ▸ hs
  · intro hs
    exact ⟨p, ⟨Table.mem_of_find? h, hs⟩, hid⟩

theorem run_pruneStale (now : Clock) (r : PeerRegistry) :
    ∃ r', (pruneStale now).run r = .ok () r' ∧
      (∀ id p, r'.peers.find? id = some p ↔ r.peers.find? id = some p ∧ ¬isStale now p) ∧
      ∀ Q, Sound Q r → Sound Q r' := by
  have hn : (r.staleIds now).Nodup := r.peers.nodup.sublist (List.filter_sublist.map _)
  have hs : ∀ id ∈ r.staleIds now, (r.peers.find? id).isSome := by
    intro id hid
    obtain ⟨p, hp, rfl⟩ := List.mem_map.mp hid
    rw [Table.find?_of_mem (List.mem_of_mem_filter hp)]
    rfl
  obtain ⟨r', hr, hfind, hsound⟩ := run_loseAll hn hs
  refine ⟨r', hr, fun id p => ?_, hsound⟩
  rw [hfind]
  constructor
  · intro h
    obtain ⟨hid, hf⟩ := Option.ite_none_left_eq_some.mp h
    exact ⟨hf, fun hst => hid ((mem_staleIds hf).mpr hst)⟩
  · rintro ⟨hf, hst⟩
    rw [if_neg fun hid => hst ((mem_staleIds hf).mp hid), hf]

end PeerRegistry

namespace Discovery

variable {P : Primitives} {d : Discovery} {msg : Json} {host : Str} {a : Announcement} {now : Clock}
  {data : Bytes} {addr : Address} {s : DiscoveryState}

theorem nameOf_length_le : (nameOf msg host).length ≤ 64 :=
  List.length_take_le _ _

theorem nameOf_ne_nil (h : host ≠ []) : nameOf msg host ≠ [] := by
  have ht {name : Str} (hn : name ≠ []) : name.take 64 ≠ [] := by
    cases name
    case nil => exact absurd rfl hn
    case cons => nofun
  unfold nameOf
  cases msg.text? "name"
  case none => exact ht h
  case some name =>
    refine ht ?_
    change (if name.val.strip = [] then host else name.val) ≠ []
    split
    case isTrue => exact h
    case isFalse hs =>
      intro hn
      rw [hn] at hs
      exact hs rfl

-- What the checks have found out about an announcement that is accepted
structure Accepts (P : Primitives) (d : Discovery) (msg : Json) (host : Str) (a : Announcement) : Prop where
  readId   : msg.text? "device_id" = some a.deviceId
  named    : a.deviceId.val ≠ []
  readKey  : ((msg.text? "public_key").bind fun s => Base64.decodeStrict s.val) = some a.publicKey
  readPort : ((msg.get? (.ofString "tcp_port")).getD (.int 0)).int? = some a.tcpPort
  key      : a.publicKey.length = 32
  deviceId : a.deviceId.val = (P.sha256 a.publicKey).hex
  foreign  : a.deviceId.val ≠ d.peerId
  port     : 0 < a.tcpPort ∧ a.tcpPort < 65536
  name     : a.name = nameOf msg host

theorem examine_eq_accept (h : d.examine P msg host = .accept a) : Accepts P d msg host a := by
  unfold examine at h
  split at h
  case h_1 => cases h
  case h_2 deviceId hd =>
    split at h
    case h_1 => cases h
    case h_2 publicKey hk =>
      split at h
      case isTrue => cases h
      case isFalse hl =>
        split at h
        case isTrue => cases h
        case isFalse hid =>
          split at h
          case isTrue => cases h
          case isFalse hown =>
            split at h
            case h_1 => cases h
            case h_2 tcpPort hp =>
              cases h
              obtain ⟨hd, hne⟩ := Option.filter_eq_some_iff.mp hd
              obtain ⟨k, hk, hkey⟩ := Option.bind_eq_some_iff.mp hk
              obtain ⟨hk, -⟩ := Option.filter_eq_some_iff.mp hk
              obtain ⟨hread, hp⟩ := Option.filter_eq_some_iff.mp hp
              exact ⟨hd, of_decide_eq_true hne, hk ▸ hkey, hread, not_not.mp hl, (not_not.mp hid).symm, hown,
                of_decide_eq_true hp, rfl⟩

theorem registry_accept {reply : Bool} : ((d.accept P now addr a reply).run s).state.registry =
    s.registry.upsert a.deviceId.val a.name addr.host a.tcpPort a.publicKey now := by
  unfold accept
  cases reply
  case false => rfl
  case true =>
    simp only [EStateM.run_bind, EStateM.run_modify, if_true]
    cases d.buildPayload P false <;> rfl

theorem registry_of_readAnnounce (h : readAnnounce P data = .ok (some msg)) :
    ((d.handlePacket P now data addr).run s).state.registry =
      match d.examine P msg addr.host with
      | .accept a => s.registry.upsert a.deviceId.val a.name addr.host a.tcpPort a.publicKey now
      | _         => s.registry := by
  simp only [handlePacket, EStateM.run_bind, h, EStateM.run_liftM_ok]
  cases d.examine P msg addr.host
  case ignore | inconsistent => rfl
  case accept a => exact registry_accept

-- A packet leaves the registry alone or is taken in.
theorem registry_handlePacket (P : Primitives) (d : Discovery) (now : Clock) (data : Bytes)
    (addr : Address) (s : DiscoveryState) :
    ((d.handlePacket P now data addr).run s).state.registry = s.registry ∨
    ∃ msg a, Accepts P d msg addr.host a ∧
      ((d.handlePacket P now data addr).run s).state.registry =
        s.registry.upsert a.deviceId.val a.name addr.host a.tcpPort a.publicKey now := by
  rcases hr : readAnnounce P data with e | _ | msg
  · simp only [handlePacket, EStateM.run_bind, hr]
    exact .inl rfl
  · simp only [handlePacket, EStateM.run_bind, hr]
    exact .inl rfl
  · rw [registry_of_readAnnounce hr]
    cases he : d.examine P msg addr.host
    case ignore | inconsistent => exact .inl rfl
    case accept a => exact .inr ⟨msg, a, examine_eq_accept he, rfl⟩

end Discovery
