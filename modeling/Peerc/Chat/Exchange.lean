import Mathlib.Logic.Function.Basic
import Peerc.Chat.Basic
import Peerc.Peer.ReadLoop
import Peerc.Protocol.Builders
import Peerc.Transport.Session

-- Two chat sessions and the connections between them

open Protocol

-- The parameters of a call of `send_chat`, with what it draws and reads off the clock
structure ChatMessage where
  messageId  : Text
  senderId   : Text
  senderName : Text
  text       : Text
  timestamp  : Clock

def ChatMessage.toJson (m : ChatMessage) : Json :=
  makeChatMessage m.messageId m.senderId m.senderName m.text m.timestamp.val

-- What a side has written to a connection
inductive ChatFrame
  | chat (m : ChatMessage)
  | ack (messageId : Json) (timestamp : Clock)
  -- A frame of another session
  | other (frame : AnyFrame)

def ChatFrame.frame : ChatFrame → AnyFrame
  | chat m                  => .json m.toJson
  | ack messageId timestamp => .json (makeChatAck messageId timestamp.val)
  | other frame             => frame

-- What the other sessions write: objects of other types, and file data
def ChatFrame.IsForeign : AnyFrame → Prop
  | .json message   => (∃ fields, message = .obj fields) ∧ message.WellFormed ∧
      message.text? "type" ≠ some (.ofString "chat") ∧ message.text? "type" ≠ some (.ofString "chat_ack")
  | .binary payload => payload ≠ []

-- One side of a connection. `taken` are the packets that have been dispatched, and `shown` the messages that
-- `ChatReceived` was published for, or that `on_chat_received` was called with.
structure ChatLink where
  -- What the other side has written and this one has not read
  inbox    : Bytes := []
  -- A message whose acknowledgment is being sent: the read loop waits for its handler.
  handling : Option Json := none
  written  : List ChatFrame := []
  taken    : List Packet := []
  shown    : List Json := []

structure ChatPeer where
  chat  : ChatState := {}
  links : Nat → ChatLink := fun _ => {}

abbrev ChatPair := Side → ChatPeer

-- `c` is the connection that the manager has under the address, if there is one.
inductive PairEvent
  | sendChat (x : Side) (messageId : Text) (addrKey senderId senderName text : Str) (now : Clock) (c : Option Nat)
  | sendEnds (x : Side) (messageId : Text) (result : ChatState.SendResult)
  | wakeUp (x : Side) (messageId : Text)
  -- Another session writes.
  | write (x : Side) (c : Nat) (frame : AnyFrame) (foreign : ChatFrame.IsForeign frame)
  | read (x : Side) (c : Nat) (reply : Option Nat) (now : Clock)
  | ackSent (x : Side) (c : Nat) (result : ChatState.SendResult)

namespace ChatPair

variable (P : Primitives) (s : ChatPair) (x : Side)

def setChat (chat : ChatState) : ChatPair :=
  Function.update s x { s x with chat }

def mapLink (c : Nat) (f : ChatLink → ChatLink) : ChatPair :=
  Function.update s x { s x with links := Function.update (s x).links c (f ((s x).links c)) }

-- `write_message` or `write_binary_frame`
def put (c : Nat) (f : ChatFrame) (bytes : Bytes) : ChatPair :=
  mapLink (mapLink s x c fun l => { l with written := l.written ++ [f] }) x.other c fun l =>
    { l with inbox := l.inbox ++ bytes }

-- `manager.send` until its `await`. Without a connection, or when the encoding raises, nothing is written.
def send (c : Option Nat) (f : ChatFrame) : ChatPair :=
  match c, f.frame.encode P with
  | some c, .ok bytes => put s x c f bytes
  | _, _              => s

-- What `_dispatch` or `_on_network_message` does with a packet until its `await`
def dispatch (c : Nat) (reply : Option Nat) (now : Clock) (p : Packet) : ChatPair :=
  if p.type? = some (.ofString "chat") then
    match p.get? "message_id" with
    | none           => s
    | some messageId =>
      send P (mapLink s x c fun l => { l with handling := some p.header }) x reply (.ack messageId now)
  else s

def step : PairEvent → Option ChatPair
  | .sendChat x messageId addrKey senderId senderName text now c =>
    ((s x).chat.step (.sendChat messageId addrKey text)).map fun chat =>
      let s := s.setChat x chat
      if replacedSize text > maxChatTextSize then s else
        send P s x c (.chat ⟨messageId, .join senderId, .join senderName, .join text, now⟩)
  | .sendEnds x messageId result => ((s x).chat.step (.sendEnds messageId result)).map (s.setChat x)
  | .wakeUp x messageId => ((s x).chat.step (.wakeUp messageId)).map (s.setChat x)
  | .write x c frame _ => some (send P s x (some c) (.other frame))
  | .read x c reply now =>
    if ((s x).links c).handling.isSome then none else
    match (nextPacket readExactly P).run ((s x).links c).inbox with
    -- The loop ends.
    | .error ..    => none
    | .ok p inbox =>
      ((s x).chat.step (.receive p)).map fun chat =>
        let s := mapLink (s.setChat x chat) x c fun l => { l with inbox, taken := l.taken ++ [p] }
        dispatch P s x c reply now p
  -- The rest of `_handle_incoming_chat`
  | .ackSent x c result =>
    ((s x).links c).handling.map fun message =>
      mapLink s x c fun l => { l with
        handling := none
        shown    := if result = .raises then l.shown else l.shown ++ [message] }

def machine (P : Primitives) : Machine ChatPair PairEvent where
  Init s := s = fun _ => {}
  step   := step P

end ChatPair
