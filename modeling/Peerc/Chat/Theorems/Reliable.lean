import Mathlib.Algebra.Order.BigOperators.Group.List
import Peerc.Chat.Theorems.Exchange
import Peerc.Handshake.Theorems.Completes
import Peerc.Lib.Lists
import Peerc.Lib.Surrogates
import Peerc.Lib.Weight

-- Two chat sessions when nothing fails

open Protocol

namespace Protocol

theorem length_le_replacedSize (s : Str) : s.length ≤ replacedSize s := by
  have hl : s.length = (s.map fun c => if c.IsSurrogate then 1 else c.utf8.length).length := by
    rw [List.length_map]
  rw [hl]
  refine List.length_le_sum_of_one_le _ fun n hn => ?_
  obtain ⟨c, -, rfl⟩ := List.mem_map.mp hn
  split
  · exact Nat.le_refl 1
  · simp only [CodePoint.utf8]
    repeat' split
    all_goals exact Nat.succ_le_succ (Nat.zero_le _)

-- `send_chat` counts two bytes for a surrogate pair. The character that it stands for has four.
theorem replacedSize_le_joinPairs (s : Str) : replacedSize s ≤ replacedSize s.joinPairs := by
  unfold replacedSize
  induction s using Str.joinPairs.induct
  case case1 | case2 => exact le_refl _
  case case3 c d s hp hi =>
    have hv := Str.paired_val hp.left hp.right
    have hl : ¬(Str.paired c d).IsSurrogate := fun h => by
      have := h.right
      omega
    have hu : (Str.paired c d).utf8.length = 4 := by
      rw [CodePoint.utf8, if_neg (by omega), if_neg (by omega), if_neg (by omega)]
      rfl
    have hc : c.IsSurrogate := ⟨hp.left.left, by have := hp.left.right; omega⟩
    have hd : d.IsSurrogate := ⟨by have := hp.right.left; omega, hp.right.right⟩
    rw [Str.joinPairs_cons_of_pair hp.left hp.right]
    simp only [List.map_cons, List.sum_cons, if_neg hl, hu, if_pos hc, if_pos hd]
    omega
  case case4 c d s hp hi =>
    rw [Str.joinPairs, if_neg hp, List.map_cons, List.sum_cons, List.map_cons, List.sum_cons]
    exact Nat.add_le_add_left hi _

-- The frame can be written, and a read loop passes on what it carries.
def readable (P : Primitives) (frame : AnyFrame) : Bool :=
  match frame.encode P with
  | .error _   => false
  | .ok bytes =>
    match (nextPacket readExactly P).run bytes with
    | .ok _ rest => rest.isEmpty
    | .error ..  => false

theorem readable_iff {P : Primitives} {frame : AnyFrame} :
    readable P frame ↔ ∃ bytes p, frame.encode P = .ok bytes ∧ IsFrame P bytes p := by
  have hf {bytes p} : IsFrame P bytes p ↔ (nextPacket readExactly P).run bytes = .ok p [] := by
    simp [nextPacket_eq_ok_iff]
  simp only [hf, readable]
  cases frame.encode P
  case error => simp
  case ok bytes => cases hr : (nextPacket readExactly P).run bytes <;> simp [hr]

theorem OwnMessage.readable_toJson {P : Primitives} (m : OwnMessage Text) (ha : m.Acceptable)
    (hf : Handshake.Fits P m.toJson) : readable P (.json m.toJson) := by
  obtain ⟨bytes, hb⟩ := encodeFrame_of_fits hf
  have hw := m.toJson_wellFormed
  have hv := m.validate_toJson.mpr ha
  refine readable_iff.mpr ⟨bytes, .json m.toJson, hb, ?_⟩
  cases m <;> exact isFrame_encodeFrame hw hv hb

theorem fits_chatMessage {P : Primitives} (hP : P.Lawful) {messageId senderId senderName text : Text}
    (hm : messageId.val.length ≤ 1000) (hi : senderId.val.length ≤ 1000) (hn : senderName.val.length ≤ 1000)
    (ht : text.val.length ≤ maxChatTextSize) (now : Double) :
    Handshake.Fits P (makeChatMessage messageId senderId senderName text now) := by
  have hmax : maxChatTextSize = 65536 := rfl
  refine Handshake.fits_of_dumps (n := 800000) ?_ (by simp only [List.length_cons, List.length_nil]; decide)
  simp only [List.forall_mem_cons]
  exact ⟨⟨_, rfl, by decide⟩, ⟨_, rfl, by decide⟩, Json.str_field_length_le (by decide) (by omega),
    Json.str_field_length_le (by decide) (by omega), Json.str_field_length_le (by decide) (by omega),
    Json.str_field_length_le (by decide) (by omega),
    Json.float_field_length_le (by decide) hP.repr_length (by decide), List.forall_mem_nil _⟩

theorem fits_chatAck {P : Primitives} (hP : P.Lawful) {messageId : Text} (hm : messageId.val.length ≤ 1000)
    (now : Double) : Handshake.Fits P (makeChatAck (.str messageId) now) := by
  refine Handshake.fits_of_dumps (n := 13000) ?_ (by simp only [List.length_cons, List.length_nil]; decide)
  simp only [List.forall_mem_cons]
  exact ⟨⟨_, rfl, by decide⟩, ⟨_, rfl, by decide⟩, Json.str_field_length_le (by decide) (by omega),
    Json.float_field_length_le (by decide) hP.repr_length (by decide), List.forall_mem_nil _⟩

end Protocol

namespace ChatState

variable {s s' : ChatState} {id : Text}

-- A message is waited for until its acknowledgment arrives, and none has failed.
structure Unfailing (s : ChatState) : Prop where
  tracked   : ∀ id ∈ s.issued, (s.pending.find? id).isSome ∨ (id, .delivered) ∈ s.statuses
  acked     : ∀ id ∈ s.acks, s.pending.find? id = none
  delivered : ∀ status ∈ s.statuses, status.snd = .delivered

theorem Unfailing.sendChat (h : s.Unfailing) {addrKey text : Str} (hn : id ∉ s.acks)
    (ht : replacedSize text ≤ maxChatTextSize) (hs : s.step (.sendChat id addrKey text) = some s') :
    s'.Unfailing := by
  obtain ⟨-, hs⟩ := Option.ite_none_left_eq_some.mp hs
  rw [after_sendChat, if_neg (Nat.not_lt.mpr ht)] at hs
  cases hs
  constructor
  case tracked =>
    intro id' hid
    simp only [Table.find?_replace]
    split
    case isTrue => exact .inl rfl
    case isFalse hne => exact h.tracked id' ((List.mem_cons.mp hid).resolve_left hne)
  case acked =>
    intro id' hid
    rw [Table.find?_replace, if_neg fun he : id' = id => hn (he ▸ hid)]
    exact h.acked id' hid
  case delivered => exact h.delivered

theorem Unfailing.sendEnds (h : s.Unfailing) (hs : s.step (.sendEnds id .ok) = some s') : s'.Unfailing := by
  obtain ⟨-, hs⟩ := Option.ite_none_right_eq_some.mp hs
  cases hs
  cases hm : s.pending.find? id
  case none =>
    rw [after_resumeSendChat_gone (s := { s with sending := s.sending.erase id }) hm]
    exact ⟨h.tracked, h.acked, h.delivered⟩
  case some m =>
    rw [after_resumeSendChat_ok (s := { s with sending := s.sending.erase id }) hm]
    refine ⟨fun id' hid => ?_, fun id' hid => ?_, h.delivered⟩
    · simp only [Table.find?_update]
      split
      case isTrue => exact .inl (by rw [hm]; rfl)
      case isFalse => exact h.tracked id' hid
    · have hn := h.acked id' hid
      simp only [Table.find?_update]
      split
      case isTrue he =>
        rw [he, hm] at hn
        cases hn
      case isFalse => exact hn

theorem Unfailing.receive (h : s.Unfailing) {p : Packet} (hs : s.step (.receive p) = some s') : s'.Unfailing := by
  cases hs
  rw [after_dispatch]
  cases hi : ackId? p
  case none => exact h
  case some id =>
    cases hm : s.pending.find? id
    case none =>
      simp only [Option.bind_some, hm]
      refine ⟨h.tracked, fun id' hid => ?_, h.delivered⟩
      obtain rfl | hid := List.mem_cons.mp hid
      · exact hm
      · exact h.acked id' hid
    case some m =>
      have hk : m.messageId = id := Table.key_of_find? hm
      simp only [Option.bind_some, hm]
      constructor
      case tracked =>
        intro id' hid
        simp only [Option.elim, deliver, resolve, Table.find?_erase, hk, List.mem_cons]
        split
        case isTrue he => exact .inr (.inl (he ▸ rfl))
        case isFalse => exact (h.tracked id' hid).imp_right .inr
      case acked =>
        intro id' hid
        simp only [Option.elim, deliver, resolve, Table.find?_erase, hk]
        split
        case isTrue => rfl
        case isFalse hne => exact h.acked id' ((List.mem_cons.mp hid).resolve_left hne)
      case delivered =>
        intro status hstatus
        obtain rfl | hstatus := List.mem_cons.mp hstatus
        · rfl
        · exact h.delivered status hstatus

end ChatState

namespace ChatPair

variable {P : Primitives} {s s' : ChatPair} {x y : Side} {c d : Nat} {f : ChatFrame} {chat : ChatState}
  {g : ChatLink → ChatLink}

-- There is a connection to write to, nothing raises, no watcher fires, and what is written can be read. Ids and names
-- are not longer than a thousand characters, and a chat text is within its size when it arrives, with its surrogate
-- pairs joined.
def Reliable (P : Primitives) (_ : ChatPair) : PairEvent → Prop
  | .sendChat _ messageId _ senderId senderName text _ c => c.isSome ∧ messageId.val.length ≤ 1000 ∧
      senderId.length ≤ 1000 ∧ senderName.length ≤ 1000 ∧ replacedSize text.joinPairs ≤ maxChatTextSize
  | .sendEnds _ _ result => result = .ok
  | .wakeUp ..           => False
  | .write _ _ frame _   => readable P frame
  | .read _ _ reply _    => reply.isSome
  | .ackSent _ _ result  => result = .ok

instance decidableReliable (P : Primitives) (s : ChatPair) : DecidablePred (Reliable P s)
  | .sendChat .. => inferInstanceAs (Decidable (_ ∧ _))
  | .sendEnds .. => inferInstanceAs (Decidable (_ = _))
  | .wakeUp ..   => inferInstanceAs (Decidable False)
  | .write ..    => inferInstanceAs (Decidable (_ = true))
  | .read ..     => inferInstanceAs (Decidable (_ = true))
  | .ackSent ..  => inferInstanceAs (Decidable (_ = _))

-- Neither side has anything to read, or an acknowledgment to finish.
def Quiet (P : Primitives) (s : ChatPair) : Prop :=
  ∀ x c, (∀ reply now, s.step P (.read x c reply now) = none) ∧ ∀ result, s.step P (.ackSent x c result) = none

-- What holds besides `Inv` while nothing fails
structure Orderly (P : Primitives) (s : ChatPair) : Prop where
  unfailing : ∀ x, (s x).chat.Unfailing
  readable  : ∀ x c, ∀ f ∈ ((s x).links c).written, readable P f.frame
  short     : ∀ x c m, .chat m ∈ ((s x).links c).written → m.messageId.val.length ≤ 1000
  -- Every message that has been taken is shown.
  shown     : ∀ x c, ((s x).links c).shown ++ ((s x).links c).handling.toList =
    (((s x.other).links c).written.take ((s x).links c).taken.length).filterMap ChatFrame.chat?
  heard     : ∀ x c id (now : Clock), .json (makeChatAck (.str id) now.val) ∈ ((s x).links c).taken →
    id ∈ (s x).chat.acks

structure Complete (P : Primitives) (s : ChatPair) : Prop extends Orderly P s where
  sent    : ∀ x, ∀ id ∈ (s x).chat.issued, ∃ c m, .chat m ∈ ((s x).links c).written ∧ m.messageId = id
  replied : ∀ x c (m : ChatMessage), .json m.toJson ∈ ((s x).links c).taken →
    ∃ d now, .ack (.str m.messageId) now ∈ ((s x).links d).written

theorem Complete.init : Complete P (fun _ => {}) := by
  refine ⟨⟨fun _ => ⟨?_, ?_, ?_⟩, ?_, ?_, ?_, ?_⟩, ?_, ?_⟩ <;> simp

theorem Inv.taken_length_le (h : Inv P s) (x : Side) (c : Nat) :
    ((s x).links c).taken.length ≤ ((s x.other).links c).written.length := by
  obtain ⟨done, rest, hc⟩ := h.conveys x c
  rw [hc.written, ← hc.taken.length_eq, List.length_append]
  exact Nat.le_add_right _ _

theorem Inv.acks_issued (h : Inv P s) {id : Text} (hid : id ∈ (s x).chat.acks) : id ∈ (s x).chat.issued := by
  obtain ⟨c, now, hw⟩ := h.acked x id hid
  obtain ⟨d, m, he, -, hm⟩ := h.answered x.other c (.str id) now hw
  cases he
  exact h.issued x d m (Side.other_other x ▸ hm)

theorem Orderly.setChat (h : Orderly P s) (hc : chat.Unfailing) (ha : (s x).chat.acks ⊆ chat.acks) :
    Orderly P (s.setChat x chat) := by
  constructor
  case unfailing =>
    intro y
    rw [setChat_chat]
    split
    · exact hc
    · exact h.unfailing y
  all_goals simp only [setChat_links]
  case readable => exact h.readable
  case short => exact h.short
  case shown => exact h.shown
  case heard =>
    intro y c id now hid
    rw [setChat_chat]
    split
    case isTrue hy => exact ha (hy ▸ h.heard y c id now hid)
    case isFalse => exact h.heard y c id now hid

theorem Orderly.put {b : Bytes} (h : Orderly P s)
    (hl : ∀ y d, ((s y).links d).taken.length ≤ ((s y.other).links d).written.length)
    (hf : Protocol.readable P f.frame) (hm : ∀ m, f = .chat m → m.messageId.val.length ≤ 1000) :
    Orderly P (ChatPair.put s x c f b) := by
  constructor
  case unfailing =>
    simp only [put_chat]
    exact h.unfailing
  case readable =>
    intro y d e he
    obtain he | ⟨rfl, -, -⟩ := mem_written_put.mp he
    · exact h.readable y d e he
    · exact hf
  case short =>
    intro y d m he
    obtain he | ⟨he, -, -⟩ := mem_written_put.mp he
    · exact h.short y d m he
    · exact hm m he.symm
  case shown =>
    intro y d
    simp only [put_links]
    rw [List.take_append_of_le_length (hl y d)]
    exact h.shown y d
  case heard =>
    simp only [put_links, put_chat]
    exact h.heard

theorem Orderly.mapLink (h : Orderly P s) (hw : (g ((s x).links c)).written = ((s x).links c).written)
    (hs : (g ((s x).links c)).shown ++ (g ((s x).links c)).handling.toList =
      (((s x.other).links c).written.take (g ((s x).links c)).taken.length).filterMap ChatFrame.chat?)
    (hh : ∀ id (now : Clock), .json (makeChatAck (.str id) now.val) ∈ (g ((s x).links c)).taken →
      id ∈ (s x).chat.acks) : Orderly P (ChatPair.mapLink s x c g) := by
  have hwritten {y d} : ((ChatPair.mapLink s x c g y).links d).written = ((s y).links d).written :=
    written_mapLink hw
  constructor
  all_goals simp only [hwritten, mapLink_chat]
  case unfailing => exact h.unfailing
  case readable => exact h.readable
  case short => exact h.short
  case shown =>
    intro y d
    rw [mapLink_links]
    split
    case isTrue hx =>
      obtain ⟨rfl, rfl⟩ := hx
      exact hs
    case isFalse => exact h.shown y d
  case heard =>
    intro y d id now hid
    rw [mapLink_links] at hid
    split at hid
    case isTrue hx =>
      obtain ⟨rfl, rfl⟩ := hx
      exact hh id now hid
    case isFalse => exact h.heard y d id now hid

theorem send_of_readable (hf : Protocol.readable P f.frame) :
    ∃ b, f.frame.encode P = .ok b ∧ ∀ s x c, send P s x (some c) f = put s x c f b := by
  obtain ⟨b, -, hb, -⟩ := readable_iff.mp hf
  refine ⟨b, hb, fun s x c => ?_⟩
  simp only [send, hb]

theorem written_put_subset {b : Bytes} :
    ((s y).links d).written ⊆ ((put s x c f b y).links d).written :=
  fun _ he => mem_written_put.mpr (.inl he)

@[simp]
theorem taken_put {b : Bytes} : ((put s x c f b y).links d).taken = ((s y).links d).taken := by
  rw [put_links]

theorem readable_chat (hP : P.Lawful) {m : ChatMessage} (hid : m.messageId.val.length ≤ 1000)
    (hs : m.senderId.val.length ≤ 1000) (hn : m.senderName.val.length ≤ 1000)
    (ht : replacedSize m.text.val ≤ maxChatTextSize) : Protocol.readable P (ChatFrame.chat m).frame :=
  (OwnMessage.chat ..).readable_toJson ht
    (fits_chatMessage hP hid hs hn ((length_le_replacedSize _).trans ht) m.timestamp.val)

theorem readable_ack (hP : P.Lawful) {id : Text} (hid : id.val.length ≤ 1000) (now : Clock) :
    Protocol.readable P (ChatFrame.ack (.str id) now).frame :=
  (OwnMessage.chatAck id now).readable_toJson trivial (fits_chatAck hP hid now.val)

theorem Complete.sendChat (h : Complete P s) (hi : Inv P s) (hP : P.Lawful) {id : Text}
    {addrKey senderId senderName text : Str} {now : Clock} {reply : Option Nat}
    (hg : Reliable P s (.sendChat x id addrKey senderId senderName text now reply))
    (hs : s.step P (.sendChat x id addrKey senderId senderName text now reply) = some s') : Complete P s' := by
  obtain ⟨hc, hid, hsender, hname, hj⟩ := hg
  have ht := (replacedSize_le_joinPairs text).trans hj
  obtain ⟨c, rfl⟩ := Option.isSome_iff_exists.mp hc
  obtain ⟨chat, hchat, rfl⟩ := Option.map_eq_some_iff.mp hs
  have hunfailing : chat.Unfailing := by
    refine (h.unfailing x).sendChat (fun hack => ?_) ht hchat
    exact (Option.ite_none_left_eq_some.mp hchat).left (hi.acks_issued hack)
  obtain ⟨-, hchat⟩ := Option.ite_none_left_eq_some.mp hchat
  have hframe := ChatState.frame_sendChat (s := { (s x).chat with issued := id :: (s x).chat.issued })
    id addrKey text
  rw [Option.some.inj hchat] at hframe
  dsimp only
  rw [if_neg (Nat.not_lt.mpr ht)]
  have hf := readable_chat hP (m := ⟨id, .join senderId, .join senderName, .join text, now⟩) hid
    ((Str.joinPairs_length_le _).trans hsender) ((Str.joinPairs_length_le _).trans hname) hj
  have hm : (⟨id, .join senderId, .join senderName, .join text, now⟩ : ChatMessage).messageId = id := rfl
  revert hf hm
  generalize (⟨id, .join senderId, .join senderName, .join text, now⟩ : ChatMessage) = m
  intro hf hm
  obtain ⟨b, -, hsend⟩ := send_of_readable hf
  have hw {e y d} (he : e ∈ ((s y).links d).written) :
      e ∈ ((ChatPair.put (s.setChat x chat) x c (.chat m) b y).links d).written :=
    written_put_subset (by rwa [setChat_links])
  rw [hsend]
  constructor
  case toOrderly =>
    refine (h.toOrderly.setChat hunfailing fun _ hack => hframe.acks.symm ▸ hack).put ?_ hf fun m' hm' => ?_
    · simp only [setChat_links]
      exact hi.taken_length_le
    · cases hm'
      exact hm ▸ hid
  case sent =>
    intro y id' hid'
    rw [put_chat, setChat_chat] at hid'
    split at hid'
    case isFalse =>
      obtain ⟨d, m, hm, he⟩ := h.sent y id' hid'
      exact ⟨d, m, hw hm, he⟩
    case isTrue hy =>
      rw [hframe.issued] at hid'
      obtain rfl | hid' := List.mem_cons.mp hid'
      · exact ⟨c, m, mem_written_put.mpr (.inr ⟨rfl, hy, rfl⟩), hm⟩
      · obtain ⟨d, m, hm, he⟩ := h.sent y id' (hy ▸ hid')
        exact ⟨d, m, hw hm, he⟩
  case replied =>
    intro y d m hm
    rw [taken_put, setChat_links] at hm
    obtain ⟨d', t, ht⟩ := h.replied y d m hm
    exact ⟨d', t, hw ht⟩

theorem Complete.sendEnds (h : Complete P s) {id : Text}
    (hs : s.step P (.sendEnds x id .ok) = some s') : Complete P s' := by
  obtain ⟨chat, hchat, rfl⟩ := Option.map_eq_some_iff.mp hs
  have hunfailing := (h.unfailing x).sendEnds hchat
  obtain ⟨-, hchat⟩ := Option.ite_none_right_eq_some.mp hchat
  have hframe := ChatState.frame_resumeSendChat (s := { (s x).chat with sending := (s x).chat.sending.erase id })
    id .ok
  rw [Option.some.inj hchat] at hframe
  refine ⟨h.toOrderly.setChat hunfailing fun _ hid => hframe.acks.symm ▸ hid, ?_, ?_⟩ <;> simp only [setChat_links]
  · intro y id' hid'
    refine h.sent y id' ?_
    rw [setChat_chat] at hid'
    split at hid'
    case isTrue hy => exact hy ▸ hframe.issued ▸ hid'
    case isFalse => exact hid'
  · exact h.replied

theorem Complete.put {b : Bytes} (h : Complete P s) (hi : Inv P s) (hf : Protocol.readable P f.frame)
    (hm : ∀ m, f = .chat m → m.messageId.val.length ≤ 1000) : Complete P (ChatPair.put s x c f b) := by
  refine ⟨h.toOrderly.put hi.taken_length_le hf hm, ?_, ?_⟩ <;> simp only [put_chat, taken_put]
  · intro y id hid
    obtain ⟨d, m, hm, he⟩ := h.sent y id hid
    exact ⟨d, m, written_put_subset hm, he⟩
  · intro y d m hm
    obtain ⟨d', t, ht⟩ := h.replied y d m hm
    exact ⟨d', t, written_put_subset ht⟩

-- What is shown and what has been heard when a packet has been taken
theorem Orderly.take (h : Orderly P s) (hi : Inv P s) {p : Packet} {inbox : Bytes}
    (hn : ((s x).links c).handling = none)
    (hr : (nextPacket readExactly P).run ((s x).links c).inbox = .ok p inbox)
    (hs : (s x).chat.step (.receive p) = some chat) (hw : (g ((s x).links c)).written = ((s x).links c).written)
    (hsame : (g ((s x).links c)).shown = ((s x).links c).shown)
    (ht : (g ((s x).links c)).taken = ((s x).links c).taken ++ [p])
    (hh : ∀ f ∈ ((s x.other).links c).written, f.Carries p → (g ((s x).links c)).handling = f.chat?) :
    Orderly P (ChatPair.mapLink (s.setChat x chat) x c g) := by
  obtain ⟨done, rest, hc⟩ := hi.conveys x c
  obtain ⟨f, rest', rfl, hf, -⟩ := hc.take (hi.valid x.other c) hr
  have hacks := (ChatState.after_receive p hs).right.left
  have hlen := hc.taken.length_eq
  have hshown := h.shown x c
  rw [hn, Option.toList_none, List.append_nil, hc.written, ← hlen, List.take_left] at hshown
  refine (h.setChat ((h.unfailing x).receive hs) fun id hid => ?_).mapLink ?_ ?_ fun id now hid => ?_
  · rw [hacks]
    exact List.mem_append_right _ hid
  · rw [setChat_links, hw]
  · have htake : (done ++ f :: rest').take (((s x).links c).taken ++ [p]).length = done ++ [f] := by
      have hl : (((s x).links c).taken ++ [p]).length = (done ++ [f]).length := by simp [hlen]
      rw [hl, List.append_cons done f rest', List.take_left]
    simp only [setChat_links, hsame, ht, hc.written, htake, List.filterMap_append, hshown]
    rw [hh f (by simp [hc.written]) hf]
    cases hcf : f.chat? <;> simp [hcf]
  · simp only [setChat_links, ht, List.mem_append, List.mem_singleton] at hid
    rw [setChat_chat, if_pos rfl, hacks]
    obtain hid | rfl := hid
    · exact List.mem_append_right _ (h.heard x c id now hid)
    · exact List.mem_append_left _ (List.mem_singleton_self id)

theorem mem_taken_mapLink {p q : Packet}
    (hq : q ∈ ((mapLink (s.setChat x chat) x c g y).links d).taken)
    (ht : (g ((s x).links c)).taken = ((s x).links c).taken ++ [p]) :
    q ∈ ((s y).links d).taken ∨ q = p ∧ y = x := by
  rw [mapLink_links, setChat_links] at hq
  split at hq
  case isFalse => exact .inl hq
  case isTrue hx =>
    obtain ⟨rfl, rfl⟩ := hx
    rw [ht, List.mem_append, List.mem_singleton] at hq
    exact hq.imp_right (⟨·, rfl⟩)

-- A message is answered when it is taken.
theorem Complete.read (h : Complete P s) (hi : Inv P s) (hP : P.Lawful) {reply : Option Nat} {now : Clock}
    (hg : reply.isSome) (hs : s.step P (.read x c reply now) = some s') : Complete P s' := by
  obtain ⟨d, rfl⟩ := Option.isSome_iff_exists.mp hg
  obtain ⟨hn, hs⟩ := Option.ite_none_left_eq_some.mp hs
  replace hn := Option.not_isSome_iff_eq_none.mp hn
  split at hs
  case h_1 => cases hs
  case h_2 p inbox hr =>
    obtain ⟨chat, hchat, rfl⟩ := Option.map_eq_some_iff.mp hs
    have hissued := (ChatState.after_receive p hchat).left
    have hsent {y id} (hid : id ∈ (s.setChat x chat y).chat.issued) :
        ∃ c m, .chat m ∈ ((s y).links c).written ∧ m.messageId = id := by
      rw [setChat_chat] at hid
      split at hid
      case isTrue hy => exact h.sent y id (hy ▸ hissued ▸ hid)
      case isFalse => exact h.sent y id hid
    obtain ⟨done, rest, hc⟩ := hi.conveys x c
    obtain ⟨f, rest', rfl, hf, -⟩ := hc.take (hi.valid x.other c) hr
    by_cases ht : p.type? = some (.ofString "chat")
    case neg =>
      dsimp only
      rw [ChatPair.dispatch, if_neg ht]
      constructor
      case toOrderly =>
        refine h.toOrderly.take hi hn hr hchat rfl rfl rfl ?_
        rintro f - hf
        cases f
        case chat m => exact absurd ((congrArg Packet.type? hf).trans (ChatFrame.type?_chat m)) ht
        case ack | other => exact hn
      case sent =>
        intro y id hid
        simp only [written_mapLink, setChat_links]
        exact hsent (mapLink_chat ▸ hid)
      case replied =>
        intro y e m hm
        simp only [written_mapLink, setChat_links]
        refine h.replied y e m ((mem_taken_mapLink hm rfl).resolve_right fun hp => ht ?_)
        rw [← hp.left, ChatFrame.type?_chat]
    case pos =>
      obtain ⟨m, rfl, rfl⟩ := hf.chat_of_type ht
      have hid : (Packet.json m.toJson).get? "message_id" = some (.str m.messageId) := rfl
      have hshort := h.short x.other c m (by simp [hc.written])
      have hack := readable_ack hP hshort now
      obtain ⟨b, -, hsend⟩ := send_of_readable hack
      simp only [ChatPair.dispatch, if_pos ht, hid, mapLink_mapLink, hsend]
      constructor
      case toOrderly =>
        refine Orderly.put ?_ (fun y e => ?_) hack fun m' hm' => ?_
        · refine h.toOrderly.take hi hn hr hchat rfl rfl rfl fun f _ hf => ?_
          obtain ⟨m', rfl, he⟩ := hf.chat_of_type ht
          exact congrArg some (Packet.json.inj he)
        · rw [written_mapLink rfl, mapLink_links, setChat_links, setChat_links]
          split
          case isTrue hx =>
            simp [hx, hc.written, hc.taken.length_eq]
          case isFalse => exact hi.taken_length_le y e
        · cases hm'
      case sent =>
        intro y id hid
        rw [put_chat, mapLink_chat] at hid
        obtain ⟨e, m', hm, he⟩ := hsent hid
        refine ⟨e, m', written_put_subset ?_, he⟩
        simpa only [written_mapLink, setChat_links] using hm
      case replied =>
        intro y e m' hm
        obtain hm | ⟨hp, rfl⟩ := mem_taken_mapLink (taken_put ▸ hm) rfl
        · obtain ⟨e', t, hw⟩ := h.replied y e m' hm
          refine ⟨e', t, written_put_subset ?_⟩
          simpa only [written_mapLink, setChat_links] using hw
        · have he : some m'.messageId = some m.messageId :=
            congrArg (Json.text? · "message_id") (Packet.json.inj hp)
          rw [Option.some.inj he]
          exact ⟨d, now, mem_written_put.mpr (.inr ⟨rfl, rfl, rfl⟩)⟩

theorem Complete.ackSent (h : Complete P s) (hs : s.step P (.ackSent x c .ok) = some s') : Complete P s' := by
  obtain ⟨message, hh, rfl⟩ := Option.map_eq_some_iff.mp hs
  have hshown := h.shown x c
  rw [hh] at hshown
  refine ⟨h.toOrderly.mapLink rfl ?_ (h.heard x c), ?_, ?_⟩
  · simpa using hshown
  · intro y id hid
    obtain ⟨d, m, hm, he⟩ := h.sent y id (mapLink_chat ▸ hid)
    refine ⟨d, m, ?_, he⟩
    rw [mapLink_links]
    split <;> exact hm
  · intro y d m hm
    have hm' : .json m.toJson ∈ ((s y).links d).taken := by
      rw [mapLink_links] at hm
      split at hm <;> exact hm
    obtain ⟨d', t, ht⟩ := h.replied y d m hm'
    refine ⟨d', t, ?_⟩
    rw [mapLink_links]
    split <;> exact ht

theorem Complete.step (h : Complete P s) (hi : Inv P s) (hP : P.Lawful) {e : PairEvent} (hg : Reliable P s e)
    (hs : s.step P e = some s') : Complete P s' := by
  cases e
  case sendChat => exact h.sendChat hi hP hg hs
  case sendEnds =>
    cases hg
    exact h.sendEnds hs
  case wakeUp => cases hg
  case write x c frame foreign =>
    cases hs
    obtain ⟨b, -, hsend⟩ := send_of_readable (f := .other frame) hg
    rw [hsend]
    refine h.put hi hg fun m hm => ?_
    cases hm
  case read => exact h.read hi hP hg hs
  case ackSent =>
    cases hg
    exact h.ackSent hs

theorem complete_of_run (hP : P.Lawful) (run : (machine P).Run (Reliable P) s) : Inv P s ∧ Complete P s := by
  induction run
  case init h =>
    cases h
    exact ⟨.init, .init⟩
  case step hg hs hi => exact ⟨hi.left.step hs, hi.right.step hi.left hP hg hs⟩

-- Everything that has been written can be read, so that nothing is left to read when nobody reads.
theorem Complete.all_taken (h : Complete P s) (hi : Inv P s) (hq : Quiet P s) (x : Side) (c : Nat) :
    ((s x).links c).handling = none ∧
      List.Forall₂ ChatFrame.Carries ((s x.other).links c).written ((s x).links c).taken := by
  obtain ⟨hread, hack⟩ := hq x c
  have hn : ((s x).links c).handling = none := Option.map_eq_none_iff.mp (hack .ok)
  refine ⟨hn, ?_⟩
  obtain ⟨done, rest, hc⟩ := hi.conveys x c
  cases rest
  case nil =>
    rw [hc.written, List.append_nil]
    exact hc.taken
  case cons f rest =>
    obtain ⟨b, p, hb, hp⟩ := readable_iff.mp (h.readable x.other c f (by simp [hc.written]))
    have hr : (nextPacket readExactly P).run ((s x).links c).inbox = .ok p (rest.flatMap (ChatFrame.bytes P)) := by
      rw [hc.inbox, List.flatMap_cons, ChatFrame.bytes_of_encode hb]
      exact nextPacket_eq_ok_iff.mpr ⟨b, hp, rfl⟩
    have hstep := hread none ⟨.zero, Double.isFinite_zero⟩
    simp only [ChatPair.step, hn, hr, Option.isSome_none, Bool.false_eq_true, if_false, ChatState.step,
      Option.map_some] at hstep
    cases hstep

theorem Complete.all_shown (h : Complete P s) (hi : Inv P s) (hq : Quiet P s) (x : Side) (c : Nat) :
    ((s x).links c).shown = ((s x.other).links c).written.filterMap ChatFrame.chat? := by
  obtain ⟨hn, ht⟩ := h.all_taken hi hq x c
  have hs := h.shown x c
  rwa [hn, Option.toList_none, List.append_nil, ← ht.length_eq, List.take_length] at hs

theorem Complete.all_delivered (h : Complete P s) (hi : Inv P s) (hq : Quiet P s) {id : Text}
    (hid : id ∈ (s x).chat.issued) : (id, .delivered) ∈ (s x).chat.statuses := by
  -- The message has been taken, its acknowledgment written, and that has been taken too.
  obtain ⟨c, m, hm, rfl⟩ := h.sent x id hid
  obtain ⟨p, hp, hcarries⟩ := (h.all_taken hi hq x.other c).right.exists_of_mem (Side.other_other x ▸ hm)
  cases hcarries
  obtain ⟨d, now, hack⟩ := h.replied x.other c m hp
  obtain ⟨p, hp, hcarries⟩ := (h.all_taken hi hq x d).right.exists_of_mem hack
  cases hcarries
  have hnone := (h.unfailing x).acked _ (h.heard x d _ now hp)
  refine ((h.unfailing x).tracked _ hid).resolve_left fun hp => ?_
  rw [hnone] at hp
  cases hp

-- The steps that are left: a message is read, its acknowledgment ends, and that is read.
def weight (frames : List ChatFrame) : Nat :=
  (frames.map fun f => if f.chat?.isSome then 3 else 1).sum

def load (s : ChatPair) (i : Side × Nat) : Nat :=
  weight (((s i.fst.other).links i.snd).written.drop ((s i.fst).links i.snd).taken.length) +
    ((s i.fst).links i.snd).handling.toList.length

theorem load_eq {done rest : List ChatFrame} (hw : ((s x.other).links c).written = done ++ rest)
    (hl : done.length = ((s x).links c).taken.length) :
    load s (x, c) = weight rest + ((s x).links c).handling.toList.length := by
  simp only [load, hw, ← hl, List.drop_left]

theorem load_setChat (i : Side × Nat) : load (s.setChat x chat) i = load s i := by
  simp only [load, setChat_links]

theorem load_mapLink (hw : (g ((s x).links c)).written = ((s x).links c).written) (i : Side × Nat) (hi : i ≠ (x, c)) :
    load (mapLink s x c g) i = load s i := by
  have hne : ¬(i.fst = x ∧ i.snd = c) := fun h => hi (Prod.ext h.left h.right)
  have hlink : (mapLink s x c g i.fst).links i.snd = (s i.fst).links i.snd := by rw [mapLink_links, if_neg hne]
  simp only [load, written_mapLink hw, hlink]

theorem load_put_of_ne {b : Bytes} (i : Side × Nat) (hi : i ≠ (x.other, c)) :
    load (put s x c f b) i = load s i := by
  have hne : ¬(i.fst.other = x ∧ i.snd = c) := by
    rintro ⟨rfl, rfl⟩
    exact hi (Prod.ext (Side.other_other i.fst).symm rfl)
  simp only [load, put_links, if_neg hne, List.append_nil]

theorem load_put_le {b : Bytes} (hf : f.chat? = none) :
    load (put s x c f b) (x.other, c) ≤ load s (x.other, c) + 1 := by
  have hl (k : Nat) : weight ([f].drop k) ≤ 1 := by
    cases k <;> simp [weight, hf]
  have := hl (((s x.other).links c).taken.length - ((s x).links c).written.length)
  simp only [weight] at this
  simp only [load, weight, put_links, Side.other_other, and_self, if_true, List.drop_append, List.map_append,
    List.sum_append]
  omega

section

variable {n : Nat}

theorem weighs_setChat (h : Weighs (load s) n) : Weighs (load (s.setChat x chat)) n :=
  h.congr load_setChat

theorem weighs_mapLink (h : Weighs (load s) n) (hw : (g ((s x).links c)).written = ((s x).links c).written) :
    ∃ n', Weighs (load (mapLink s x c g)) n' ∧ n' + load s (x, c) = n + load (mapLink s x c g) (x, c) :=
  h.change (x, c) (load_mapLink hw)

theorem weighs_send {reply : Option Nat} (h : Weighs (load s) n) : ∃ n', Weighs (load (send P s x reply f)) n' ∧
    (f.chat? = none → n' ≤ n + 1) := by
  obtain he | ⟨c, b, -, he⟩ := send_cases P s x reply f <;> rw [he]
  · exact ⟨n, h, fun _ => Nat.le_succ n⟩
  · obtain ⟨n', hn', he'⟩ := h.change (x.other, c) load_put_of_ne
    refine ⟨n', hn', fun hf => ?_⟩
    have := load_put_le (s := s) (x := x) (c := c) (b := b) hf
    omega

theorem weighs_step (h : Weighs (load s) n) {e : PairEvent} (hs : s.step P e = some s') :
    ∃ n', Weighs (load s') n' := by
  have hsend {s : ChatPair} {x reply f} (h : ∃ n, Weighs (load s) n) :
      ∃ n', Weighs (load (send P s x reply f)) n' := by
    obtain ⟨n, h⟩ := h
    obtain ⟨n', hn', -⟩ := weighs_send (P := P) (x := x) (f := f) h
    exact ⟨n', hn'⟩
  have hmap {s : ChatPair} {x c} {g : ChatLink → ChatLink} (h : ∃ n, Weighs (load s) n)
      (hw : (g ((s x).links c)).written = ((s x).links c).written) :
      ∃ n', Weighs (load (mapLink s x c g)) n' := by
    obtain ⟨n, h⟩ := h
    obtain ⟨n', hn', -⟩ := weighs_mapLink h hw
    exact ⟨n', hn'⟩
  cases e
  case sendChat =>
    obtain ⟨chat, -, rfl⟩ := Option.map_eq_some_iff.mp hs
    dsimp only
    split
    · exact ⟨n, weighs_setChat h⟩
    · exact hsend ⟨n, weighs_setChat h⟩
  case sendEnds | wakeUp =>
    obtain ⟨chat, -, rfl⟩ := Option.map_eq_some_iff.mp hs
    exact ⟨n, weighs_setChat h⟩
  case write =>
    cases hs
    exact hsend ⟨n, h⟩
  case read =>
    obtain ⟨-, hs⟩ := Option.ite_none_left_eq_some.mp hs
    split at hs
    case h_1 => cases hs
    case h_2 p inbox hr =>
      obtain ⟨chat, -, rfl⟩ := Option.map_eq_some_iff.mp hs
      dsimp only [dispatch]
      split
      case isFalse => exact hmap ⟨n, weighs_setChat h⟩ rfl
      case isTrue =>
        split
        · exact hmap ⟨n, weighs_setChat h⟩ rfl
        · exact hsend (hmap (hmap ⟨n, weighs_setChat h⟩ rfl) rfl)
  case ackSent =>
    obtain ⟨message, -, rfl⟩ := Option.map_eq_some_iff.mp hs
    exact hmap ⟨n, h⟩ rfl

theorem weighs_of_run (run : (machine P).Run (Reliable P) s) : ∃ n, Weighs (load s) n := by
  induction run
  case init h =>
    cases h
    exact ⟨0, .zero fun _ => rfl⟩
  case step hs hi =>
    obtain ⟨n, h⟩ := hi
    exact weighs_step h hs

-- What the read loops do
inductive Delivery
  | read (x : Side) (c : Nat) (reply : Option Nat) (now : Clock)
  | ackSent (x : Side) (c : Nat) (result : ChatState.SendResult)

def Delivery.event : Delivery → PairEvent
  | read x c reply now  => .read x c reply now
  | ackSent x c result => .ackSent x c result

def deliveries (P : Primitives) : Machine ChatPair Delivery where
  Init _   := True
  step s d := s.step P d.event

theorem weighs_take (hn : Weighs (load s) n) {done rest done' rest' : List ChatFrame}
    (hc : Conveys P ((s x.other).links c) ((s x).links c) done rest)
    (hw : (g ((s x).links c)).written = ((s x).links c).written)
    (hd : done ++ rest = done' ++ rest') (hl : done'.length = (g ((s x).links c)).taken.length) :
    ∃ n', Weighs (load (mapLink s x c g)) n' ∧ n' + (weight rest + ((s x).links c).handling.toList.length) =
      n + (weight rest' + (g ((s x).links c)).handling.toList.length) := by
  obtain ⟨n', hn', he⟩ := weighs_mapLink hn hw
  have hself : (mapLink s x c g x).links c = g ((s x).links c) := by
    rw [mapLink_links, if_pos ⟨rfl, rfl⟩]
  have hnew : load (mapLink s x c g) (x, c) = weight rest' + (g ((s x).links c)).handling.toList.length := by
    rw [← hself]
    refine load_eq ?_ (hself ▸ hl)
    rw [written_mapLink hw, hc.written, hd]
  rw [load_eq hc.written hc.taken.length_eq, hnew] at he
  exact ⟨n', hn', he⟩

theorem Inv.weighs_less (h : Inv P s) (hn : Weighs (load s) n) {e : Delivery}
    (hs : (deliveries P).step s e = some s') : ∃ n' < n, Weighs (load s') n' := by
  cases e
  case ackSent x c result =>
    obtain ⟨message, hh, rfl⟩ := Option.map_eq_some_iff.mp hs
    obtain ⟨done, rest, hc⟩ := h.conveys x c
    obtain ⟨n', hn', he⟩ := weighs_take hn (g := fun l => { l with
      handling := none
      shown    := if result = .raises then l.shown else l.shown ++ [message] }) hc rfl rfl hc.taken.length_eq
    refine ⟨n', ?_, hn'⟩
    simp only [hh, Option.toList_some, Option.toList_none, List.length_cons, List.length_nil] at he
    omega
  case read x c reply now =>
    obtain ⟨-, hs⟩ := Option.ite_none_left_eq_some.mp hs
    split at hs
    case h_1 => cases hs
    case h_2 p inbox hr =>
      obtain ⟨chat, -, rfl⟩ := Option.map_eq_some_iff.mp hs
      obtain ⟨done, rest, hc⟩ := h.conveys x c
      obtain ⟨f, rest', rfl, hf, -⟩ := hc.take (h.valid x.other c) hr
      have hc' : Conveys P ((s.setChat x chat x.other).links c) ((s.setChat x chat x).links c) done (f :: rest') := by
        rwa [setChat_links, setChat_links]
      have hd : done ++ f :: rest' = (done ++ [f]) ++ rest' := List.append_cons ..
      have hlen : (done ++ [f]).length = (((s.setChat x chat x).links c).taken ++ [p]).length := by
        simp [hc'.taken.length_eq]
      by_cases ht : p.type? = some (.ofString "chat")
      case neg =>
        dsimp only
        rw [dispatch, if_neg ht]
        obtain ⟨n', hn', he⟩ := weighs_take (weighs_setChat hn)
          (g := fun l => { l with inbox, taken := l.taken ++ [p] }) hc' rfl hd hlen
        refine ⟨n', ?_, hn'⟩
        have hpos : 0 < weight [f] := by
          simp only [weight, List.map_cons, List.map_nil, List.sum_singleton]
          split <;> decide
        have hw : weight (f :: rest') = weight [f] + weight rest' := by simp [weight]
        dsimp only at he
        omega
      case pos =>
        obtain ⟨m, rfl, rfl⟩ := hf.chat_of_type ht
        have hid : (Packet.json m.toJson).get? "message_id" = some (.str m.messageId) := rfl
        simp only [dispatch, if_pos ht, hid, mapLink_mapLink]
        obtain ⟨n', hn', he⟩ := weighs_take (weighs_setChat hn) (g := fun l => { l with
          inbox
          taken    := l.taken ++ [.json m.toJson]
          handling := some (Packet.json m.toJson).header }) hc' rfl hd hlen
        obtain ⟨n'', hn'', hle⟩ := weighs_send (P := P) (x := x) (f := .ack (.str m.messageId) now) hn'
        refine ⟨n'', ?_, hn''⟩
        have hw : weight (.chat m :: rest') = 3 + weight rest' := by simp [weight, ChatFrame.chat?]
        have hle := hle rfl
        simp only [Option.toList_some, List.length_cons, List.length_nil] at he
        omega

theorem Inv.deliveries_bounded (h : Inv P s) (hn : Weighs (load s) n) (es : List Delivery)
    (he : (deliveries P).exec (fun _ _ => True) s es = some s') : es.length ≤ n := by
  refine @Machine.length_le_of_decreasing _ _ (deliveries P) _ _ (fun n s => Inv P s ∧ Weighs (load s) n) ?_ _ _ _
    ⟨h, hn⟩ es he
  rintro n s e s' ⟨h, hn⟩ hs
  obtain ⟨n', hlt, hn'⟩ := h.weighs_less hn hs
  exact ⟨n', hlt, h.step hs, hn'⟩

-- Whether there is something to read or to finish does not depend on how that goes.
theorem exists_reliable (hq : ¬Quiet P s) :
    ∃ e : Delivery, Reliable P s e.event ∧ ((deliveries P).step s e).isSome := by
  simp only [Quiet, not_forall, not_and_or] at hq
  obtain ⟨x, c, ⟨reply, now, hq⟩ | ⟨result, hq⟩⟩ := hq
  · refine ⟨.read x c (some c) now, rfl, ?_⟩
    simp only [deliveries, Delivery.event, ChatPair.step] at hq ⊢
    split at hq
    case isTrue => exact absurd rfl hq
    case isFalse hn =>
      rw [if_neg hn]
      cases hr : (nextPacket readExactly P).run ((s x).links c).inbox <;> rw [hr] at hq
      case error => exact absurd rfl hq
      case ok => exact Option.isSome_map.trans rfl
  · refine ⟨.ackSent x c .ok, rfl, ?_⟩
    rw [← ne_eq, ← Option.isSome_iff_ne_none] at hq
    simp only [deliveries, Delivery.event, ChatPair.step, Option.isSome_map] at hq ⊢
    exact hq

theorem send_chat {reply : Option Nat} : (send P s x reply f y).chat = (s y).chat := by
  obtain he | ⟨c, b, -, he⟩ := send_cases P s x reply f <;> rw [he]
  exact put_chat b

theorem dispatch_chat {reply : Option Nat} {now : Clock} {p : Packet} :
    (dispatch P s x c reply now p y).chat = (s y).chat := by
  unfold dispatch
  by_cases ht : p.type? = some (.ofString "chat")
  case neg => rw [if_neg ht]
  case pos =>
    rw [if_pos ht]
    cases p.get? "message_id"
    case none => rfl
    case some => exact send_chat.trans mapLink_chat

theorem issued_of_delivery {e : Delivery} (hs : (deliveries P).step s e = some s') (y : Side) :
    (s' y).chat.issued = (s y).chat.issued := by
  cases e
  case ackSent =>
    obtain ⟨message, -, rfl⟩ := Option.map_eq_some_iff.mp hs
    rw [mapLink_chat]
  case read x c reply now =>
    obtain ⟨-, hs⟩ := Option.ite_none_left_eq_some.mp hs
    split at hs
    case h_1 => cases hs
    case h_2 p inbox hr =>
      obtain ⟨chat, hchat, rfl⟩ := Option.map_eq_some_iff.mp hs
      rw [dispatch_chat, mapLink_chat, setChat_chat]
      split
      case isTrue hy => rw [(ChatState.after_receive p hchat).left, hy]
      case isFalse => rfl

theorem exists_quiet (run : (machine P).Run (Reliable P) s) (h : Inv P s) (hn : Weighs (load s) n) :
    ∃ es s', (deliveries P).exec (fun _ _ => True) s es = some s' ∧ (machine P).Run (Reliable P) s' ∧ Quiet P s' ∧
      ∀ x, (s' x).chat.issued = (s x).chat.issued := by
  induction n using Nat.strong_induction_on generalizing s
  case h n hi =>
    by_cases hq : Quiet P s
    case pos => exact ⟨[], s, rfl, run, hq, fun _ => rfl⟩
    case neg =>
      obtain ⟨e, hg, he⟩ := exists_reliable hq
      obtain ⟨s₁, hs⟩ := Option.isSome_iff_exists.mp he
      obtain ⟨n', hlt, hn'⟩ := h.weighs_less hn hs
      obtain ⟨es, s', hes, hrun, hq', hissued⟩ := hi n' hlt (run.step hg hs) (h.step hs) hn'
      exact ⟨e :: es, s', (Machine.exec_cons es trivial hs).trans hes, hrun, hq',
        fun x => (hissued x).trans (issued_of_delivery hs x)⟩

end

end ChatPair

-- While nothing fails, the read loops come to rest, and then every message has been shown as it was written and
-- reported as delivered.
open ChatPair in
theorem chat_messages_delivered (P : Primitives) (hP : P.Lawful) (s : ChatPair)
    (run : (machine P).Run (Reliable P) s) :
    (∃ n, ∀ es s', (deliveries P).exec (fun _ _ => True) s es = some s' → es.length ≤ n) ∧
    (∃ es s', (deliveries P).exec (fun _ _ => True) s es = some s' ∧ (machine P).Run (Reliable P) s' ∧
      Quiet P s' ∧ ∀ x, (s' x).chat.issued = (s x).chat.issued) ∧
    (Quiet P s → ∀ x,
      (∀ c, ((s x).links c).shown = ((s x.other).links c).written.filterMap ChatFrame.chat?) ∧
      ∀ id ∈ (s x).chat.issued, (id, .delivered) ∈ (s x).chat.statuses ∧ (id, .failed) ∉ (s x).chat.statuses) := by
  obtain ⟨hi, h⟩ := complete_of_run hP run
  obtain ⟨n, hn⟩ := weighs_of_run run
  refine ⟨⟨n, fun es s' => hi.deliveries_bounded hn es⟩, exists_quiet run hi hn, fun hq x => ?_⟩
  refine ⟨h.all_shown hi hq x, fun id hid => ?_⟩
  refine ⟨h.all_delivered hi hq hid, fun hf => ?_⟩
  cases (h.unfailing x).delivered _ hf

open ChatPair ChatPair.Hello Handshake.Loopback in
theorem chat_messages_delivered_hello : ∃ s, (machine prims).Run (Reliable prims) s ∧ Quiet prims s ∧
    (messageId, .delivered) ∈ (s .left).chat.statuses := by
  have h₀ : (machine prims).Run (Reliable prims) (fun _ => {}) := .init rfl
  obtain ⟨s, run, hs⟩ := h₀.exec_any (p := fun s => (s .left).chat.issued = [messageId]) (events.take 2)
    (by decide +kernel)
  obtain ⟨-, ⟨es, s', -, run', hq, hissued⟩, -⟩ := chat_messages_delivered prims prims_lawful s run
  obtain ⟨-, -, hdelivered⟩ := chat_messages_delivered prims prims_lawful s' run'
  refine ⟨s', run', hq, ((hdelivered hq .left).right messageId ?_).left⟩
  rw [hissued, of_decide_eq_true hs]
  exact List.mem_singleton_self _
