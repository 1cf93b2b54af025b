import Peerc.Discovery.Mdns
import Peerc.Discovery.Theorems.Registry
import Peerc.Lib.Json.Size
import Peerc.Lib.Surrogates

-- The two ways in which an announcement arrives

namespace Discovery

variable {P : Primitives} {a d : Discovery} {msg : Json} {host name : Str} {reply : Bool} {now : Clock}
  {addr : Address} {s : DiscoveryState} {data : Bytes}

-- What the receiver is given by mDNS, if the TXT record arrives as it was made
def mdnsPacket (P : Primitives) (a : Discovery) (srcIp : Str) : Except PacketError Bytes := do
  let txt ← buildMdnsTxt protocolVersion a.peerId a.publicKey a.name a.tcpPort
  mdnsTxtToPacket P txt srcIp

-- A builder that raises hands nothing to the receiver.
def registryAfter (P : Primitives) (d : Discovery) (now : Clock) (addr : Address) (s : DiscoveryState) :
    Except PacketError Bytes → PeerRegistry
  | .ok data => ((d.handlePacket P now data addr).run s).state.registry
  | .error _ => s.registry

theorem encodePacket_eq_ok : encodePacket P msg = .ok data ↔
    ∃ t, Json.dumps P.floats .default msg = some t ∧ t.encodeUtf8 = some data := by
  unfold encodePacket
  cases hd : Json.dumps P.floats .default msg
  case none => simp
  case some t => cases he : t.encodeUtf8 <;> simp [he]

-- A number with too many digits is refused on both ways.
theorem encodePacket_announcement : (∃ data, encodePacket P (announcement a name reply) = .ok data) ↔
    (Json.dumpsInt a.tcpPort).isSome := by
  have hd : (Json.dumps P.floats .default (announcement a name reply)).isSome ↔
      (Json.dumpsInt a.tcpPort).isSome := by
    have hs (t : Text) : (Json.dumps P.floats .default (.str t)).isSome := rfl
    have hi (n : Int) : Json.dumps P.floats .default (.int n) = Json.dumpsInt n := rfl
    have hb : (Json.dumps P.floats .default (.bool reply)).isSome := by cases reply <;> rfl
    rw [announcement, Json.dumps_obj_isSome]
    simp only [List.forall_mem_cons, hs, hi, hb, true_and]
    exact ⟨fun h => h.right.left, fun h => ⟨rfl, h, List.forall_mem_nil _⟩⟩
  rw [← hd]
  simp only [encodePacket_eq_ok, Option.isSome_iff_exists]
  constructor
  · rintro ⟨_, t, ht, _⟩
    exact ⟨t, ht⟩
  · rintro ⟨t, ht⟩
    exact ⟨_, t, ht, if_pos (Json.dumps_isAscii _ t ht).encodable⟩

-- The texts of the numbers are read back.
theorem mdnsPacket_eq (P : Primitives) (a : Discovery) (srcIp : Str) :
    a.mdnsPacket P srcIp = encodePacket P (a.announcement (a.name.take 64) false) := by
  obtain ⟨v, hv⟩ : ∃ v, Json.dumpsInt protocolVersion = some v := ⟨_, rfl⟩
  cases hp : Json.dumpsInt a.tcpPort
  case none =>
    have he : encodePacket P (a.announcement (a.name.take 64) false) = .error .valueError := by
      cases he : encodePacket P (a.announcement (a.name.take 64) false)
      case error e => rfl
      case ok data =>
        have := encodePacket_announcement.mp ⟨data, he⟩
        rw [hp] at this
        cases this
    rw [he, mdnsPacket, buildMdnsTxt, hv, hp]
    rfl
  case some port =>
    have hk : Text.join (Base64.encode a.publicKey) = Base64.encodeText a.publicKey :=
      Subtype.ext (Str.joinPairs_of_noPair (Base64.encodeText a.publicKey).property)
    have hr : safeInt port = a.tcpPort := by rw [safeInt, Str.readInt_dumpsInt hp, Option.getD_some]
    rw [mdnsPacket, buildMdnsTxt, hv, hp]
    change encodePacket P (.obj [_, (_, .int (v.readInt.getD 0)), _, (_, .str (.join (Base64.encode a.publicKey))), _,
      (_, .int (safeInt port)), _]) = _
    rw [Str.readInt_dumpsInt hv, hk, hr]
    rfl

theorem announcement_wellFormed : (announcement a name reply).WellFormed := by
  refine ⟨?_, trivial, trivial, trivial, trivial, trivial, trivial, trivial, trivial⟩
  simp only [List.map_cons, List.map_nil]
  decide

theorem readAnnounce_announcement (h : encodePacket P (announcement a name reply) = .ok data) :
    readAnnounce P data = .ok (some (announcement a name reply)) := by
  obtain ⟨t, hd, he⟩ := encodePacket_eq_ok.mp h
  rw [readAnnounce, Str.decodeUtf8_ascii (Json.dumps_isAscii _ t hd) he]
  simp only [Json.loads_dumps announcement_wellFormed hd]
  rfl

-- The checks of the receiver that do not depend on the name
structure Acceptable (P : Primitives) (d a : Discovery) : Prop where
  named   : a.peerId ≠ []
  key     : a.publicKey.length = 32
  peerId  : a.peerId = (P.sha256 a.publicKey).hex
  foreign : a.peerId ≠ d.peerId
  port    : 0 < a.tcpPort ∧ a.tcpPort < 65536

-- The name under which the announcement is shown
def shownName (name host : Str) : Str :=
  (if name.strip = [] then host else name.joinPairs).take 64

theorem nameOf_announcement : nameOf (announcement a name reply) host = shownName name host := by
  change (if name.joinPairs.strip = [] then host else name.joinPairs).take 64 = _
  rw [shownName, if_congr Str.strip_joinPairs rfl rfl]

theorem Acceptable.join_peerId (h : Acceptable P d a) : (Text.join a.peerId).val = a.peerId :=
  Str.joinPairs_of_noPair (.of_encodable (h.peerId ▸ (Bytes.hex_isAscii _).encodable))

theorem examine_announcement (h : Acceptable P d a) :
    d.examine P (announcement a name reply) host =
      .accept ⟨.join a.peerId, shownName name host, a.tcpPort, a.publicKey⟩ := by
  have hid : nonemptyText? (announcement a name reply) "device_id" = some (.join a.peerId) := by
    refine (Option.filter_eq_some_iff (o := some _)).mpr ⟨rfl, decide_eq_true ?_⟩
    rw [h.join_peerId]
    exact h.named
  have hk : ((nonemptyText? (announcement a name reply) "public_key").bind
      fun s => Base64.decodeStrict s.val) = some a.publicKey := by
    refine Option.bind_eq_some_iff.mpr ⟨Base64.encodeText a.publicKey, ?_, Base64.decodeStrict_encode _⟩
    refine (Option.filter_eq_some_iff (o := some _)).mpr ⟨rfl, decide_eq_true fun hn => ?_⟩
    have hd := Base64.decodeStrict_encode a.publicKey
    rw [show Base64.encode a.publicKey = [] from hn] at hd
    exact absurd h.key (Option.some.inj hd ▸ by decide)
  have hp : portOf? (announcement a name reply) = some a.tcpPort :=
    (Option.filter_eq_some_iff (o := some _)).mpr ⟨rfl, decide_eq_true h.port⟩
  simp only [examine, hid, hk, hp, h.join_peerId, h.key, ← h.peerId, h.foreign, nameOf_announcement,
    ne_eq, not_true_eq_false, if_false]

theorem acceptable_of_examine {x : Announcement} (h : d.examine P (announcement a name reply) host = .accept x) :
    Acceptable P d a := by
  have hx := examine_eq_accept h
  have hid : Text.join a.peerId = x.deviceId := Option.some.inj hx.readId
  have hk : a.publicKey = x.publicKey :=
    Option.some.inj ((Base64.decodeStrict_encode a.publicKey).symm.trans hx.readKey)
  have hp : a.tcpPort = x.tcpPort := Option.some.inj hx.readPort
  have hj : (Text.join a.peerId).val = a.peerId :=
    Str.joinPairs_of_isAscii (s := a.peerId) (by
      change (Text.join a.peerId).val.IsAscii
      rw [hid, hx.deviceId]
      exact Bytes.hex_isAscii _)
  refine ⟨?_, hk ▸ hx.key, ?_, ?_, hp ▸ hx.port⟩
  · rw [← hj, hid]
    exact hx.named
  · rw [← hj, hid, hx.deviceId, hk]
  · rw [← hj, hid]
    exact hx.foreign

theorem registryAfter_of_acceptable (h : Acceptable P d a) :
    registryAfter P d now addr s (encodePacket P (announcement a name reply)) =
      s.registry.upsert a.peerId (shownName name addr.host) addr.host a.tcpPort a.publicKey now := by
  have hp : (Json.dumpsInt a.tcpPort).isSome := by
    have hl : (decimal a.tcpPort.natAbs).length ≤ 5 := Json.decimal_length_le (by decide) (by
      have := h.port
      omega)
    rw [Json.dumpsInt, if_pos (hl.trans (by decide))]
    rfl
  obtain ⟨data, hd⟩ := encodePacket_announcement.mpr hp
  rw [hd, registryAfter, registry_of_readAnnounce (readAnnounce_announcement hd), examine_announcement h]
  simp only [h.join_peerId]

theorem registryAfter_of_not_acceptable (h : ¬Acceptable P d a) :
    registryAfter P d now addr s (encodePacket P (announcement a name reply)) = s.registry := by
  cases hd : encodePacket P (announcement a name reply)
  case error => rfl
  case ok data =>
    rw [registryAfter, registry_of_readAnnounce (readAnnounce_announcement hd)]
    cases he : d.examine P (announcement a name reply) addr.host
    case ignore | inconsistent => rfl
    case accept x => exact absurd (acceptable_of_examine he) h

-- Where the two ways show the same name. On one of them it is cut before the blanks are looked at and the
-- pairs are joined, on the other one after that.
structure SameName (name host : Str) : Prop where
  blank : Str.strip (name.take 64) = [] → name.strip = [] ∨ host.take 64 = name.take 64
  pairs : name.length ≤ 64 ∨ NoPair (name.take 65)

theorem noPair_of_blank (h : Str.strip (name.take 64) = []) : NoPair (name.take 65) :=
  Str.noPair_take_succ fun c hc hh => Str.isWhitespace_of_ge hh.left (Str.strip_eq_nil.mp h c hc)

theorem shownName_take_iff : shownName (name.take 64) host = shownName name host ↔ SameName name host := by
  unfold shownName
  by_cases hn : name.strip = []
  case pos =>
    have ht : Str.strip (name.take 64) = [] :=
      Str.strip_eq_nil.mpr fun c hc => Str.strip_eq_nil.mp hn c (List.mem_of_mem_take hc)
    rw [if_pos ht, if_pos hn]
    exact iff_of_true rfl ⟨fun _ => .inl hn, .inr (noPair_of_blank ht)⟩
  case neg =>
    rw [if_neg hn]
    by_cases hl : name.length ≤ 64
    case pos =>
      rw [List.take_of_length_le hl, if_neg hn]
      exact iff_of_true rfl ⟨fun ht => absurd (List.take_of_length_le hl ▸ ht) hn, .inl hl⟩
    case neg =>
      have hj := Str.joinPairs_take (s := name) (not_le.mp hl) (le_refl 64)
      rw [eq_self, true_and] at hj
      by_cases ht : Str.strip (name.take 64) = []
      case pos =>
        have hp := noPair_of_blank ht
        have hb : NoPair (name.take 64) :=
          .of_encodable fun c hc hs => Str.isWhitespace_of_ge hs.left (Str.strip_eq_nil.mp ht c hc)
        rw [if_pos ht, ← hj.mpr hp, Str.joinPairs_of_noPair hb]
        exact ⟨fun he => ⟨fun _ => .inr he, .inr hp⟩, fun h => (h.blank ht).resolve_left hn⟩
      case neg =>
        have hle : (Str.joinPairs (name.take 64)).length ≤ 64 :=
          (Str.joinPairs_length_le _).trans (List.length_take_le _ _)
        rw [if_neg ht, List.take_of_length_le hle, hj]
        exact ⟨fun hp => ⟨fun h => absurd h ht, .inr hp⟩, fun h => h.pairs.resolve_left hl⟩

theorem upsert_name_inj {r : PeerRegistry} {id n₁ n₂ ip : Str} {port : Int} {key : Bytes} (hk : key ≠ [])
    (h : r.upsert id n₁ ip port key now = r.upsert id n₂ ip port key now) : n₁ = n₂ := by
  have hf := congrArg (·.peers.find? id) h
  simp only [PeerRegistry.find?_upsert hk, if_true, Option.some.injEq, Peer.mk.injEq, true_and, and_true] at hf
  exact hf

end Discovery

-- Whatever the announcer, the address and the state of the receiver: both ways lead to the same registry if
-- and only if the announcement is not taken in at all or the cut makes no difference to its name.
open Discovery in
theorem mdns_equivalent_iff (P : Primitives) (a d : Discovery) (now : Clock) (addr : Address)
    (s : DiscoveryState) :
    registryAfter P d now addr s (a.mdnsPacket P addr.host) =
      registryAfter P d now addr s (a.buildPayload P true) ↔
    ¬Acceptable P d a ∨ SameName a.name addr.host := by
  rw [mdnsPacket_eq, show a.buildPayload P true = encodePacket P (a.announcement a.name true) from rfl]
  by_cases h : Acceptable P d a
  case neg => simp only [registryAfter_of_not_acceptable h, h, not_false_eq_true, true_or]
  case pos =>
    have hk : a.publicKey ≠ [] := fun hn => absurd h.key (hn ▸ by decide)
    rw [registryAfter_of_acceptable h, registryAfter_of_acceptable h, ← shownName_take_iff]
    simp only [h, not_true_eq_false, false_or]
    exact ⟨upsert_name_inj hk, fun he => by rw [he]⟩

-- A name that begins with 64 blanks
def DiscoverySystem.Lan.padded : Discovery :=
  { other with name := List.replicate 64 0x20 ++ Str.ofString "Other" }

open Discovery DiscoverySystem Lan in
theorem mdns_name_differs :
    (registryAfter .transparent me one addr {} (padded.mdnsPacket .transparent addr.host)).peers.rows.map (·.name) =
      [Str.ofString "192.168.1.50"] ∧
    (registryAfter .transparent me one addr {} (padded.buildPayload .transparent true)).peers.rows.map (·.name) =
      [List.replicate 64 0x20] := by
  constructor <;> decide +kernel
