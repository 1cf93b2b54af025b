import Peerc.Chat.Effect
import Peerc.Chat.Exchange
import Peerc.Protocol.Theorems.Accepted
import Peerc.Transport.Theorems.Prefix

-- What two chat sessions make of each other's messages

open Protocol

namespace ChatFrame

variable {P : Primitives} {f : ChatFrame} {p : Packet} {b rest rest' : Bytes}

-- What the sessions write
def Valid : ChatFrame → Prop
  | chat _          => True
  | ack messageId _ => ∃ t, messageId = .str t
  | other frame     => IsForeign frame

-- The packet that a frame is read as
def Carries : ChatFrame → Packet → Prop
  | chat m, p         => p = .json m.toJson
  | ack messageId t, p => p = .json (makeChatAck messageId t.val)
  | other _, p        => p.type? ≠ some (.ofString "chat") ∧ p.type? ≠ some (.ofString "chat_ack")

def chat? : ChatFrame → Option Json
  | chat m => some m.toJson
  | _      => none

def messageId? : ChatFrame → Option Text
  | chat m => some m.messageId
  | _      => none

theorem mem_messageIds {l : List ChatFrame} {id : Text} :
    id ∈ l.filterMap messageId? ↔ ∃ m, .chat m ∈ l ∧ m.messageId = id := by
  rw [List.mem_filterMap]
  constructor
  · rintro ⟨f, hf, hid⟩
    cases f <;> cases hid
    exact ⟨_, hf, rfl⟩
  · rintro ⟨m, hm, rfl⟩
    exact ⟨_, hm, rfl⟩

def bytes (P : Primitives) (f : ChatFrame) : Bytes :=
  (f.frame.encode P).toOption.getD []

theorem bytes_of_encode (h : f.frame.encode P = .ok b) : f.bytes P = b := by
  rw [bytes, h]
  rfl

-- What a session has written can be read.
theorem Valid.sendable (hv : f.Valid) (h : f.frame.encode P = .ok b) : f.frame.Sendable P := by
  cases f
  case chat m => exact (OwnMessage.chat ..).sendable h
  case ack messageId t =>
    obtain ⟨id, rfl⟩ := hv
    exact (OwnMessage.chatAck ..).sendable h
  case other frame =>
    cases frame
    case json message =>
      obtain ⟨⟨fields, rfl⟩, hw, -⟩ := hv
      exact sendable_json hw h
    case binary payload =>
      simp only [frame, AnyFrame.encode, encodeBinaryFrame] at h
      split at h <;> cases h
      case isFalse hl => exact ⟨List.length_pos_iff.mpr hv, Nat.le_of_not_lt hl⟩

theorem Valid.read (hv : f.Valid) (h : f.frame.encode P = .ok b)
    (hr : (nextPacket readExactly P).run (b ++ rest) = .ok p rest') : rest' = rest ∧ f.Carries p := by
  obtain ⟨b', hb, hread⟩ := (hv.sendable h).encode
  cases h.symm.trans hb
  replace hread := hread rest
  cases f
  case chat m => exact nextPacket_json hread hr
  case ack messageId t => exact nextPacket_json hread hr
  case other frame =>
    cases frame
    case json message =>
      obtain ⟨hrest, rfl⟩ := nextPacket_json hread hr
      exact ⟨hrest, hv.right.right⟩
    case binary payload =>
      obtain ⟨hrest, ht⟩ := nextPacket_binary hread hr
      refine ⟨hrest, ?_⟩
      simp only [Carries, ht]
      decide

-- A frame is read as a message or an acknowledgment only if it is one.

theorem type?_chat (m : ChatMessage) : (Packet.json m.toJson).type? = some (.ofString "chat") :=
  rfl

theorem type?_ack (messageId : Json) (now : Double) :
    (Packet.json (makeChatAck messageId now)).type? = some (.ofString "chat_ack") :=
  rfl

theorem chat_ne_ack : Text.ofString "chat" ≠ Text.ofString "chat_ack" := by
  decide

theorem Carries.chat_of_type (h : f.Carries p) (ht : p.type? = some (.ofString "chat")) :
    ∃ m, f = .chat m ∧ p = .json m.toJson := by
  cases f
  case chat m => exact ⟨m, rfl, h⟩
  case ack messageId t =>
    rw [show p = _ from h, type?_ack, Option.some.injEq] at ht
    exact absurd ht.symm chat_ne_ack
  case other => exact absurd ht h.left

theorem Carries.ack_of_ackId? {id : Text} (hv : f.Valid) (h : f.Carries p) (ha : ChatState.ackId? p = some id) :
    ∃ now, f = .ack (.str id) now := by
  obtain ⟨ht, hi⟩ := Option.ite_none_right_eq_some.mp ha
  cases f
  case chat m =>
    rw [show p = _ from h, type?_chat, Option.some.injEq] at ht
    exact absurd ht chat_ne_ack
  case ack messageId now =>
    obtain ⟨t, rfl⟩ := hv
    rw [show p = _ from h] at hi
    cases hi
    exact ⟨now, rfl⟩
  case other => exact absurd ht h.right

end ChatFrame

namespace ChatState

variable {s s' : ChatState} {id : Text}

-- A task that receives nothing reports no delivery.
structure Frame (s s' : ChatState) : Prop where
  issued    : s'.issued = s.issued
  acks      : s'.acks = s.acks
  delivered : ∀ id, (id, .delivered) ∈ s'.statuses → (id, .delivered) ∈ s.statuses

theorem mem_of_failed {statuses : List (Text × ChatStatus)} {messageId : Text}
    (h : (id, ChatStatus.delivered) ∈ (messageId, .failed) :: statuses) : (id, .delivered) ∈ statuses := by
  obtain he | h := List.mem_cons.mp h
  · cases he
  · exact h

theorem frame_sendChat (messageId : Text) (addrKey text : Str) :
    Frame s (s.after (sendChat messageId addrKey text)) := by
  rw [after_sendChat]
  split
  · exact ⟨rfl, rfl, fun _ => mem_of_failed⟩
  · exact ⟨rfl, rfl, fun _ => id⟩

theorem frame_resumeSendChat (messageId : Text) (result : SendResult) :
    Frame s (s.after (resumeSendChat messageId result)) := by
  cases result
  case ok =>
    cases hm : s.pending.find? messageId
    case none =>
      rw [after_resumeSendChat_gone hm]
      exact ⟨rfl, rfl, fun _ => id⟩
    case some m =>
      rw [after_resumeSendChat_ok hm]
      exact ⟨rfl, rfl, fun _ => id⟩
  case notOk => exact ⟨rfl, rfl, fun _ => mem_of_failed⟩
  case raises => exact ⟨rfl, rfl, fun _ => id⟩

theorem frame_resumeTimeoutWatcher (messageId : Text) : Frame s (s.after (resumeTimeoutWatcher messageId)) := by
  rw [after_resumeTimeoutWatcher]
  cases s.pending.find? messageId
  case none => exact ⟨rfl, rfl, fun _ => id⟩
  case some => exact ⟨rfl, rfl, fun _ => mem_of_failed⟩

theorem after_receive (p : Packet) {s' : ChatState} (h : s.step (.receive p) = some s') :
    s'.issued = s.issued ∧ s'.acks = (ackId? p).toList ++ s.acks ∧
      ∀ id, (id, .delivered) ∈ s'.statuses → (id, .delivered) ∈ s.statuses ∨ ackId? p = some id := by
  cases h
  rw [after_dispatch]
  cases hi : ackId? p
  case none => exact ⟨rfl, rfl, fun _ => .inl⟩
  case some id =>
    cases hm : s.pending.find? id
    case none =>
      simp only [Option.bind_some, hm]
      exact ⟨rfl, rfl, fun _ => .inl⟩
    case some m =>
      simp only [Option.bind_some, hm]
      refine ⟨rfl, rfl, fun id' h => ?_⟩
      obtain he | h := List.mem_cons.mp h
      · cases he
        exact .inr (congrArg some (Table.key_of_find? hm).symm)
      · exact .inl h

end ChatState

namespace ChatPair

variable {P : Primitives} {s : ChatPair} {x y : Side} {c d : Nat} {f : ChatFrame} {chat : ChatState}
  {g : ChatLink → ChatLink}

@[simp]
theorem setChat_links : (s.setChat x chat y).links = (s y).links := by
  by_cases h : y = x
  · subst h
    simp [setChat]
  · simp [setChat, h]

@[simp]
theorem setChat_chat : (s.setChat x chat y).chat = if y = x then chat else (s y).chat := by
  by_cases h : y = x
  · subst h
    simp [setChat]
  · simp [setChat, h]

@[simp]
theorem mapLink_chat : (mapLink s x c g y).chat = (s y).chat := by
  by_cases h : y = x
  · subst h
    simp [mapLink]
  · simp [mapLink, h]

@[simp]
theorem mapLink_links :
    (mapLink s x c g y).links d = if y = x ∧ d = c then g ((s y).links d) else (s y).links d := by
  by_cases h : y = x
  · subst h
    by_cases hd : d = c
    · subst hd
      simp [mapLink]
    · simp [mapLink, hd]
  · simp [mapLink, h]

-- What has been written at one end has been read at the other one, or is on its way. The messages among it
-- that were read have been shown in their order, but for those whose handler has raised.
structure Conveys (P : Primitives) (source sink : ChatLink) (done rest : List ChatFrame) : Prop where
  written : source.written = done ++ rest
  taken   : List.Forall₂ ChatFrame.Carries done sink.taken
  inbox   : sink.inbox = rest.flatMap (ChatFrame.bytes P)
  shown   : (sink.shown ++ sink.handling.toList).Sublist (done.filterMap ChatFrame.chat?)

structure Inv (P : Primitives) (s : ChatPair) : Prop where
  valid     : ∀ x c, ∀ f ∈ ((s x).links c).written, f.Valid ∧ ∃ b, f.frame.encode P = .ok b
  conveys   : ∀ x c, ∃ done rest, Conveys P ((s x.other).links c) ((s x).links c) done rest
  -- An acknowledgment is written when its message has been taken.
  answered  : ∀ x c id now, .ack id now ∈ ((s x).links c).written →
    ∃ d m, id = .str m.messageId ∧ .json m.toJson ∈ ((s x).links d).taken ∧
      .chat m ∈ ((s x.other).links d).written
  acked     : ∀ x id, id ∈ (s x).chat.acks → ∃ c now, .ack (.str id) now ∈ ((s x.other).links c).written
  delivered : ∀ x id, (id, .delivered) ∈ (s x).chat.statuses → id ∈ (s x).chat.acks
  issued    : ∀ x c m, .chat m ∈ ((s x).links c).written → m.messageId ∈ (s x).chat.issued
  nodup     : ∀ x c, (((s x).links c).written.filterMap ChatFrame.messageId?).Nodup
  apart     : ∀ x c d m m', .chat m ∈ ((s x).links c).written → .chat m' ∈ ((s x).links d).written →
    m.messageId = m'.messageId → c = d

theorem Inv.init : Inv P (fun _ => {}) := by
  constructor
  case conveys => exact fun _ _ => ⟨[], [], rfl, .nil, rfl, List.Sublist.refl _⟩
  case nodup => exact fun _ _ => List.nodup_nil
  all_goals simp

-- Only the session of one side changes.
theorem Inv.setChat (h : Inv P s) (hi : ∀ id ∈ (s x).chat.issued, id ∈ chat.issued)
    (ha : ∀ id ∈ chat.acks, ∃ c now, .ack (.str id) now ∈ ((s x.other).links c).written)
    (hd : ∀ id, (id, .delivered) ∈ chat.statuses → id ∈ chat.acks) : Inv P (s.setChat x chat) := by
  constructor
  case delivered =>
    intro y id hid
    rw [setChat_chat] at hid ⊢
    split at hid
    case isTrue hy =>
      rw [if_pos hy]
      exact hd id hid
    case isFalse hy =>
      rw [if_neg hy]
      exact h.delivered y id hid
  all_goals simp only [setChat_links]
  case valid => exact h.valid
  case conveys => exact h.conveys
  case answered => exact h.answered
  case acked =>
    intro y id hid
    rw [setChat_chat] at hid
    split at hid
    case isTrue hy => exact hy ▸ ha id hid
    case isFalse => exact h.acked y id hid
  case issued =>
    intro y c m hm
    rw [setChat_chat]
    split
    case isTrue hy => exact hi _ (hy ▸ h.issued y c m hm)
    case isFalse => exact h.issued y c m hm
  case nodup => exact h.nodup
  case apart => exact h.apart

theorem Inv.setChat_of_frame (h : Inv P s) (hf : (s x).chat.Frame chat) : Inv P (s.setChat x chat) := by
  refine h.setChat (fun id hid => hf.issued ▸ hid) (fun id hid => ?_) fun id hid => ?_
  · rw [hf.acks] at hid
    exact h.acked x id hid
  · rw [hf.acks]
    exact h.delivered x id (hf.delivered id hid)

-- What a write changes: the frame is at the end of what has been written, and its bytes at the end of what the
-- other side has to read.
theorem put_links (b : Bytes) : (put s x c f b y).links d = { (s y).links d with
    written := ((s y).links d).written ++ if y = x ∧ d = c then [f] else []
    inbox   := ((s y).links d).inbox ++ if y = x.other ∧ d = c then b else [] } := by
  simp only [put, mapLink_links]
  by_cases hd : d = c
  case neg => simp [hd]
  case pos =>
    obtain rfl | rfl := x.eq_or_other y
    · simp [hd, Side.other_ne y |>.symm]
    · simp [hd, Side.other_ne x]

@[simp]
theorem put_chat (b : Bytes) : (put s x c f b y).chat = (s y).chat := by
  simp [put]

theorem send_cases (P : Primitives) (s : ChatPair) (x : Side) (reply : Option Nat) (f : ChatFrame) :
    send P s x reply f = s ∨
      ∃ c b, f.frame.encode P = .ok b ∧ send P s x reply f = put s x c f b := by
  cases reply
  case none => exact .inl rfl
  case some c =>
    cases he : f.frame.encode P
    case error =>
      simp only [send, he]
      exact .inl trivial
    case ok b =>
      simp only [send, he]
      exact .inr ⟨c, b, rfl, rfl⟩

theorem mem_written_put {b : Bytes} {e : ChatFrame} : e ∈ ((put s x c f b y).links d).written ↔
    e ∈ ((s y).links d).written ∨ e = f ∧ y = x ∧ d = c := by
  rw [put_links]
  by_cases h : y = x ∧ d = c
  · simp [h]
  · simp only [if_neg h, List.append_nil]
    exact (or_iff_left fun he => h he.right).symm

theorem Conveys.put {b : Bytes} {done rest : List ChatFrame} (he : f.frame.encode P = .ok b)
    (h : Conveys P ((s y.other).links d) ((s y).links d) done rest) :
    ∃ rest', Conveys P ((ChatPair.put s x c f b y.other).links d) ((ChatPair.put s x c f b y).links d)
      done rest' := by
  simp only [put_links]
  by_cases hx : y.other = x ∧ d = c
  case pos =>
    have hy : y = x.other ∧ d = c := ⟨hx.left ▸ (Side.other_other y).symm, hx.right⟩
    refine ⟨rest ++ [f], ?_, h.taken, ?_, h.shown⟩
    · simp only [if_pos hx, h.written, List.append_assoc]
    · simp only [if_pos hy, h.inbox, List.flatMap_append, List.flatMap_singleton, ChatFrame.bytes_of_encode he]
  case neg =>
    have hy : ¬(y = x.other ∧ d = c) := fun hy => hx ⟨hy.left ▸ Side.other_other x, hy.right⟩
    exact ⟨rest, by simp only [if_neg hx, List.append_nil, h.written], h.taken,
      by simp only [if_neg hy, List.append_nil, h.inbox], h.shown⟩

theorem Inv.put {b : Bytes} (h : Inv P s) (hv : f.Valid) (he : f.frame.encode P = .ok b)
    (ha : ∀ id now, f = .ack id now → ∃ d m, id = .str m.messageId ∧ .json m.toJson ∈ ((s x).links d).taken ∧
      .chat m ∈ ((s x.other).links d).written)
    (hm : ∀ m, f = .chat m → m.messageId ∈ (s x).chat.issued ∧
      ∀ d m', .chat m' ∈ ((s x).links d).written → m'.messageId ≠ m.messageId) :
    Inv P (ChatPair.put s x c f b) := by
  have hw {y d e} (hmem : e ∈ ((s y).links d).written) : e ∈ ((ChatPair.put s x c f b y).links d).written :=
    mem_written_put.mpr (.inl hmem)
  have htaken {y d} : ((ChatPair.put s x c f b y).links d).taken = ((s y).links d).taken := by rw [put_links]
  constructor
  case valid =>
    intro y d e hmem
    obtain hmem | ⟨rfl, -, -⟩ := mem_written_put.mp hmem
    · exact h.valid y d e hmem
    · exact ⟨hv, b, he⟩
  case conveys =>
    intro y d
    obtain ⟨done, rest, hc⟩ := h.conveys y d
    obtain ⟨rest', hc'⟩ := hc.put he
    exact ⟨done, rest', hc'⟩
  case answered =>
    intro y d id now hmem
    have hold : ∃ d m, id = .str m.messageId ∧ .json m.toJson ∈ ((s y).links d).taken ∧
        .chat m ∈ ((s y.other).links d).written := by
      obtain hmem | ⟨hf, rfl, -⟩ := mem_written_put.mp hmem
      · exact h.answered y d id now hmem
      · exact ha id now hf.symm
    obtain ⟨d', m, hid, ht, hc⟩ := hold
    exact ⟨d', m, hid, htaken ▸ ht, hw hc⟩
  case acked =>
    intro y id hid
    obtain ⟨d, now, hmem⟩ := h.acked y id (put_chat b ▸ hid)
    exact ⟨d, now, hw hmem⟩
  case delivered =>
    simp only [put_chat]
    exact h.delivered
  case issued =>
    intro y d m hmem
    rw [put_chat]
    obtain hmem | ⟨hf, rfl, -⟩ := mem_written_put.mp hmem
    · exact h.issued y d m hmem
    · exact (hm m hf.symm).left
  case nodup =>
    intro y d
    rw [put_links]
    by_cases hx : y = x ∧ d = c
    case neg => simpa only [if_neg hx, List.append_nil] using h.nodup y d
    case pos =>
      obtain ⟨rfl, rfl⟩ := hx
      simp only [and_self, if_true, List.filterMap_append]
      refine List.nodup_append.mpr ⟨h.nodup y d, ?_, ?_⟩
      · cases f
        case chat => exact List.nodup_singleton _
        case ack | other => exact List.nodup_nil
      · intro id hid id' hid'
        obtain ⟨m, hmem, rfl⟩ := ChatFrame.mem_messageIds.mp hid
        obtain ⟨m', hmem', rfl⟩ := ChatFrame.mem_messageIds.mp hid'
        exact (hm m' (List.mem_singleton.mp hmem').symm).right d m hmem
  case apart =>
    intro y d d' m m' hmem hmem' hid
    obtain hold | ⟨hf, rfl, rfl⟩ := mem_written_put.mp hmem <;>
      obtain hold' | ⟨hf', hy, hd⟩ := mem_written_put.mp hmem'
    · exact h.apart y d d' m m' hold hold' hid
    · exact absurd hid ((hm m' hf'.symm).right d m (hy ▸ hold))
    · exact absurd hid.symm ((hm m hf.symm).right d' m' hold')
    · exact hd.symm

-- Nothing is written, or a frame is put on a connection.
theorem Inv.send (h : Inv P s) {reply : Option Nat} (hv : f.Valid)
    (ha : ∀ id now, f = .ack id now → ∃ d m, id = .str m.messageId ∧ .json m.toJson ∈ ((s x).links d).taken ∧
      .chat m ∈ ((s x.other).links d).written)
    (hm : ∀ m, f = .chat m → m.messageId ∈ (s x).chat.issued ∧
      ∀ d m', .chat m' ∈ ((s x).links d).written → m'.messageId ≠ m.messageId) :
    Inv P (ChatPair.send P s x reply f) := by
  obtain he | ⟨c, b, hb, he⟩ := send_cases P s x reply f
  · exact he.symm ▸ h
  · exact he.symm ▸ h.put hv hb ha hm

-- A packet is taken: what is left of it, if it is a message, is to show it.
theorem Conveys.take {source sink : ChatLink} {done rest : List ChatFrame} {inbox : Bytes} {p : Packet}
    (hv : ∀ f ∈ source.written, f.Valid ∧ ∃ b, f.frame.encode P = .ok b)
    (h : Conveys P source sink done rest) (hr : (nextPacket readExactly P).run sink.inbox = .ok p inbox) :
    ∃ f rest', rest = f :: rest' ∧ f.Carries p ∧ inbox = rest'.flatMap (ChatFrame.bytes P) := by
  rw [h.inbox] at hr
  cases rest
  case nil =>
    obtain ⟨f, hf, hs⟩ := nextPacket_eq_ok_iff.mp hr
    exact absurd (List.append_eq_nil_iff.mp hs.symm).left (List.length_pos_iff.mp hf.length_pos)
  case cons f rest' =>
    obtain ⟨hf, b, hb⟩ := hv f (by simp [h.written])
    rw [List.flatMap_cons, ChatFrame.bytes_of_encode hb] at hr
    obtain ⟨rfl, hc⟩ := hf.read hb hr
    exact ⟨f, rest', rfl, hc, rfl⟩

theorem mapLink_mapLink {g' : ChatLink → ChatLink} :
    mapLink (mapLink s x c g) x c g' = mapLink s x c fun l => g' (g l) := by
  funext y
  by_cases h : y = x
  · subst h
    simp [mapLink]
  · simp [mapLink, h]

theorem written_mapLink (hw : (g ((s x).links c)).written = ((s x).links c).written) :
    ((mapLink s x c g y).links d).written = ((s y).links d).written := by
  rw [mapLink_links]
  split
  case isTrue hx => rw [hx.left, hx.right, hw]
  case isFalse => rfl

-- One side reads from a connection, or shows what it has read.
theorem Inv.mapLink (h : Inv P s) (hw : (g ((s x).links c)).written = ((s x).links c).written)
    (ht : ((s x).links c).taken ⊆ (g ((s x).links c)).taken)
    (hc : ∃ done rest, Conveys P ((s x.other).links c) (g ((s x).links c)) done rest) :
    Inv P (ChatPair.mapLink s x c g) := by
  have hwritten {y d} : ((ChatPair.mapLink s x c g y).links d).written = ((s y).links d).written :=
    written_mapLink hw
  constructor
  case conveys =>
    intro y d
    have hsource : ∀ {sink done rest}, Conveys P ((s y.other).links d) sink done rest →
        Conveys P ((ChatPair.mapLink s x c g y.other).links d) sink done rest :=
      fun h => ⟨hwritten.trans h.written, h.taken, h.inbox, h.shown⟩
    by_cases hx : y = x ∧ d = c
    case pos =>
      obtain ⟨rfl, rfl⟩ := hx
      obtain ⟨done, rest, hc⟩ := hc
      refine ⟨done, rest, hsource ?_⟩
      rwa [mapLink_links, if_pos ⟨rfl, rfl⟩]
    case neg =>
      obtain ⟨done, rest, hc⟩ := h.conveys y d
      refine ⟨done, rest, hsource ?_⟩
      rwa [mapLink_links, if_neg hx]
  all_goals simp only [hwritten, mapLink_chat]
  case valid => exact h.valid
  case answered =>
    intro y d id now hmem
    obtain ⟨d', m, hid, hm, hc⟩ := h.answered y d id now hmem
    refine ⟨d', m, hid, ?_, hc⟩
    rw [mapLink_links]
    split
    case isTrue hx =>
      obtain ⟨rfl, rfl⟩ := hx
      exact ht hm
    case isFalse => exact hm
  case acked => exact h.acked
  case delivered => exact h.delivered
  case issued => exact h.issued
  case nodup => exact h.nodup
  case apart => exact h.apart

theorem Inv.ackSent (h : Inv P s) {message : Json} (hh : ((s x).links c).handling = some message)
    (result : ChatState.SendResult) :
    Inv P (ChatPair.mapLink s x c fun l => { l with
      handling := none
      shown    := if result = .raises then l.shown else l.shown ++ [message] }) := by
  refine h.mapLink rfl (List.Subset.refl _) ?_
  obtain ⟨done, rest, hc⟩ := h.conveys x c
  refine ⟨done, rest, hc.written, hc.taken, hc.inbox, List.Sublist.trans ?_ hc.shown⟩
  rw [hh, Option.toList_none, List.append_nil]
  split
  · exact List.sublist_append_left _ _
  · exact List.Sublist.refl _

theorem Inv.read (h : Inv P s) {p : Packet} {inbox : Bytes} {reply : Option Nat} {now : Clock}
    (hn : ((s x).links c).handling = none)
    (hr : (nextPacket readExactly P).run ((s x).links c).inbox = .ok p inbox)
    (hs : (s x).chat.step (.receive p) = some chat) :
    Inv P (ChatPair.dispatch P (ChatPair.mapLink (s.setChat x chat) x c fun l =>
      { l with inbox, taken := l.taken ++ [p] }) x c reply now p) := by
  obtain ⟨done, rest, hc⟩ := h.conveys x c
  obtain ⟨f, rest', rfl, hf, hin⟩ := hc.take (h.valid x.other c) hr
  have hmem : f ∈ ((s x.other).links c).written := by simp [hc.written]
  have hv := (h.valid x.other c f hmem).left
  obtain ⟨hissued, hacks, hdelivered⟩ := ChatState.after_receive p hs
  -- An acknowledgment that is counted has been written by the other side.
  have hchat : Inv P (s.setChat x chat) := by
    refine h.setChat (fun id hid => hissued ▸ hid) (fun id hid => ?_) fun id hid => ?_
    · rw [hacks, List.mem_append, Option.mem_toList] at hid
      obtain hid | hid := hid
      · obtain ⟨t, rfl⟩ := hf.ack_of_ackId? hv hid
        exact ⟨c, t, hmem⟩
      · exact h.acked x id hid
    · rw [hacks, List.mem_append, Option.mem_toList]
      obtain hid | hid := hdelivered id hid
      · exact .inr (h.delivered x id hid)
      · exact .inl hid
  have hwritten : ((s x.other).links c).written = (done ++ [f]) ++ rest' := by rw [hc.written, List.append_cons]
  have htaken : List.Forall₂ ChatFrame.Carries (done ++ [f]) (((s x).links c).taken ++ [p]) :=
    List.rel_append hc.taken (.cons hf .nil)
  have hshown : ((s x).links c).shown.Sublist (done.filterMap ChatFrame.chat?) := by
    simpa [hn] using hc.shown
  by_cases ht : p.type? = some (.ofString "chat")
  case neg =>
    rw [ChatPair.dispatch, if_neg ht]
    refine hchat.mapLink rfl (List.subset_append_left _ _) ⟨done ++ [f], rest', ?_⟩
    simp only [setChat_links]
    refine ⟨hwritten, htaken, hin, ?_⟩
    simp only [hn, Option.toList_none, List.append_nil, List.filterMap_append]
    exact hshown.trans (List.sublist_append_left _ _)
  case pos =>
    obtain ⟨m, rfl, rfl⟩ := hf.chat_of_type ht
    have hid : (Packet.json m.toJson).get? "message_id" = some (.str m.messageId) := rfl
    simp only [ChatPair.dispatch, if_pos ht, hid, mapLink_mapLink]
    refine Inv.send ?_ ⟨_, rfl⟩ (fun id t hack => ?_) fun m' hm' => ?_
    · refine hchat.mapLink rfl (List.subset_append_left _ _) ⟨done ++ [.chat m], rest', ?_⟩
      simp only [setChat_links]
      refine ⟨hwritten, htaken, hin, ?_⟩
      simp only [List.filterMap_append]
      exact hshown.append (List.Sublist.refl _)
    · cases hack
      refine ⟨c, m, rfl, ?_, ?_⟩
      · simp
      · simpa using hmem
    · cases hm'

theorem Inv.step {s' : ChatPair} {e : PairEvent} (h : Inv P s) (hs : s.step P e = some s') : Inv P s' := by
  cases e
  case sendChat x id addrKey senderId senderName text now reply =>
    obtain ⟨chat, hchat, rfl⟩ := Option.map_eq_some_iff.mp hs
    obtain ⟨hnew, hchat⟩ := Option.ite_none_left_eq_some.mp hchat
    have hf := ChatState.frame_sendChat (s := { (s x).chat with issued := id :: (s x).chat.issued })
      id addrKey text
    rw [Option.some.inj hchat] at hf
    have hi : Inv P (s.setChat x chat) := by
      refine h.setChat (fun id' hid => ?_) (fun id' hid => ?_) fun id' hid => ?_
      · rw [hf.issued]
        exact List.mem_cons_of_mem _ hid
      · rw [hf.acks] at hid
        exact h.acked x id' hid
      · rw [hf.acks]
        exact h.delivered x id' (hf.delivered id' hid)
    dsimp only
    split
    case isTrue => exact hi
    case isFalse =>
      refine hi.send trivial (fun _ _ hack => ?_) fun m hm => ?_
      · cases hack
      · cases hm
        simp only [setChat_chat, if_true, setChat_links, hf.issued]
        refine ⟨List.mem_cons_self, fun d m' hm' he => ?_⟩
        exact hnew (he ▸ h.issued x d m' hm')
  case sendEnds x id result =>
    obtain ⟨chat, hchat, rfl⟩ := Option.map_eq_some_iff.mp hs
    obtain ⟨-, hchat⟩ := Option.ite_none_right_eq_some.mp hchat
    cases hchat
    have hf := ChatState.frame_resumeSendChat (s := { (s x).chat with sending := (s x).chat.sending.erase id })
      id result
    exact h.setChat_of_frame ⟨hf.issued, hf.acks, hf.delivered⟩
  case wakeUp x id =>
    obtain ⟨chat, hchat, rfl⟩ := Option.map_eq_some_iff.mp hs
    obtain ⟨-, hchat⟩ := Option.ite_none_right_eq_some.mp hchat
    cases hchat
    have hf := ChatState.frame_resumeTimeoutWatcher
      (s := { (s x).chat with sleeping := (s x).chat.sleeping.filter (· ≠ id) }) id
    exact h.setChat_of_frame ⟨hf.issued, hf.acks, hf.delivered⟩
  case write x c frame foreign =>
    cases hs
    refine h.send foreign (fun _ _ hack => ?_) fun m hm => ?_
    · cases hack
    · cases hm
  case read x c reply now =>
    obtain ⟨hn, hs⟩ := Option.ite_none_left_eq_some.mp hs
    split at hs
    case h_1 => cases hs
    case h_2 p inbox hr =>
      obtain ⟨chat, hchat, rfl⟩ := Option.map_eq_some_iff.mp hs
      exact h.read (Option.not_isSome_iff_eq_none.mp hn) hr hchat
  case ackSent x c result =>
    obtain ⟨message, hh, rfl⟩ := Option.map_eq_some_iff.mp hs
    exact h.ackSent hh result

theorem inv_of_run (run : (machine P).Reachable s) : Inv P s := by
  refine run.invariant ?_ fun h _ => h.step
  rintro _ rfl
  exact .init

theorem mem_chats {l : List ChatFrame} {message : Json} :
    message ∈ l.filterMap ChatFrame.chat? ↔ ∃ m, .chat m ∈ l ∧ message = m.toJson := by
  rw [List.mem_filterMap]
  constructor
  · rintro ⟨f, hf, hm⟩
    cases f <;> cases hm
    exact ⟨_, hf, rfl⟩
  · rintro ⟨m, hm, rfl⟩
    exact ⟨_, hm, rfl⟩

theorem messageIds_chats (l : List ChatFrame) : (l.filterMap ChatFrame.chat?).map (·.text? "message_id") =
    (l.filterMap ChatFrame.messageId?).map some := by
  induction l
  case nil => rfl
  case cons f l hi =>
    cases f
    case chat m => exact congrArg (some m.messageId :: ·) hi
    case ack | other => exact hi

theorem Inv.shown_sublist (h : Inv P s) (x : Side) (c : Nat) :
    ((s x).links c).shown.Sublist (((s x.other).links c).written.filterMap ChatFrame.chat?) := by
  obtain ⟨done, rest, hc⟩ := h.conveys x c
  rw [hc.written, List.filterMap_append]
  exact (List.sublist_append_left _ _).trans (hc.shown.trans (List.sublist_append_left _ _))

theorem Inv.messageIds_nodup (h : Inv P s) (x : Side) (c : Nat) :
    (((s x).links c).shown.map (·.text? "message_id")).Nodup := by
  refine ((h.shown_sublist x c).map _).nodup ?_
  rw [messageIds_chats]
  exact (h.nodup x.other c).map (Option.some_injective _)

theorem Inv.shown_apart (h : Inv P s) {message message' : Json} (hm : message ∈ ((s x).links c).shown)
    (hm' : message' ∈ ((s x).links d).shown) (hid : message.text? "message_id" = message'.text? "message_id") :
    c = d := by
  obtain ⟨m, hw, rfl⟩ := mem_chats.mp ((h.shown_sublist x c).subset hm)
  obtain ⟨m', hw', rfl⟩ := mem_chats.mp ((h.shown_sublist x d).subset hm')
  exact h.apart x.other c d m m' hw hw' (Option.some.inj hid)

theorem Inv.taken_of_delivered (h : Inv P s) {id : Text} (hd : (id, .delivered) ∈ (s x).chat.statuses) :
    ∃ c m, m.messageId = id ∧ .chat m ∈ ((s x).links c).written ∧
      .json m.toJson ∈ ((s x.other).links c).taken := by
  obtain ⟨c, now, hack⟩ := h.acked x id (h.delivered x id hd)
  obtain ⟨d, m, hid, ht, hw⟩ := h.answered x.other c (.str id) now hack
  cases hid
  exact ⟨d, m, rfl, Side.other_other x ▸ hw, ht⟩

end ChatPair

-- Whatever is lost and however the tasks are interleaved, the messages of a connection are shown as they were
-- written and in their order, none of them twice, and a message that counts as delivered has been taken by the
-- session of the other side.
open ChatPair in
theorem chat_messages_shown_once (P : Primitives) (s : ChatPair) (run : (machine P).Reachable s) (x : Side) :
    (∀ c, ((s x).links c).shown.Sublist (((s x.other).links c).written.filterMap ChatFrame.chat?)) ∧
    (∀ c, (((s x).links c).shown.map (·.text? "message_id")).Nodup) ∧
    (∀ c d message message', message ∈ ((s x).links c).shown → message' ∈ ((s x).links d).shown →
      message.text? "message_id" = message'.text? "message_id" → c = d) ∧
    ∀ id, (id, .delivered) ∈ (s x).chat.statuses → ∃ c m, m.messageId = id ∧
      .chat m ∈ ((s x).links c).written ∧ .json m.toJson ∈ ((s x.other).links c).taken := by
  have h := inv_of_run run
  exact ⟨h.shown_sublist x, h.messageIds_nodup x, fun _ _ _ _ => h.shown_apart,
    fun _ => h.taken_of_delivered⟩

namespace ChatPair.Hello

-- The left user sends a message over a connection, and the right one acknowledges and shows it.

def messageId : Text := .ofString "1"

def now : Clock := ⟨.zero, Double.isFinite_zero⟩

def events : List PairEvent := [
  .sendChat .left messageId (.ofString "10.0.0.2:5555") (.ofString "a") (.ofString "ann") (.ofString "hi") now
    (some 0),
  .sendEnds .left messageId .ok,
  .read .right 0 (some 0) now,
  .ackSent .right 0 .ok,
  .read .left 0 none now
]

def check (s : ChatPair) : Bool :=
  (s .left).chat.statuses = [(messageId, .delivered)] ∧ ((s .right).links 0).shown.length = 1

end ChatPair.Hello

open ChatPair ChatPair.Hello in
theorem chat_messages_shown_once_hello : ∃ s, (machine .transparent).Reachable s ∧
    ((s .right).links 0).shown.length = 1 ∧
    ∃ c m, m.messageId = messageId ∧ .chat m ∈ ((s .left).links c).written ∧
      .json m.toJson ∈ ((s .right).links c).taken := by
  have h₀ : (machine .transparent).Reachable (fun _ => {}) := .init rfl
  obtain ⟨s, run, hs⟩ := h₀.exec_any (p := check) events (by decide +kernel)
  obtain ⟨hd, hl⟩ := of_decide_eq_true hs
  refine ⟨s, run, hl, ?_⟩
  exact (chat_messages_shown_once .transparent s run .left).right.right.right messageId
    (by rw [hd]; exact List.mem_singleton_self _)
