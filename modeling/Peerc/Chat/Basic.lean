import Peerc.Lib.Machine
import Peerc.Lib.Refines
import Peerc.Lib.Table
import Peerc.Peer.Packet

-- chat.py

-- A message whose acknowledgment has not arrived. `timeoutTask`: a watcher has been started for it.
structure SentMessage where
  messageId   : Text
  addrKey     : Str
  timeoutTask : Bool := false

inductive ChatStatus
  | delivered
  | failed
  deriving DecidableEq

-- The session with its tasks at the points where they are suspended. `statuses` are the calls of
-- `_notify_status`, the last one first, and `acks` the ids of the acknowledgments that have arrived.
structure ChatState where
  pending  : Table Text SentMessage SentMessage.messageId := .empty
  issued   : List Text := []
  -- Calls of `send_chat` that wait for `manager.send`
  sending  : List Text := []
  -- Watchers that sleep and have not been cancelled
  sleeping : List Text := []
  statuses : List (Text × ChatStatus) := []
  acks     : List Text := []

abbrev ChatM := EStateM HandlerError ChatState

namespace ChatState

def notifyStatus (messageId : Text) (status : ChatStatus) : ChatM Unit :=
  modify fun s => { s with statuses := (messageId, status) :: s.statuses }

-- `_pending.get(value)`: the keys of the table are strings.
def lookup (s : ChatState) : Json.Key → Option SentMessage
  | .str id => s.pending.find? id
  | _       => none

def handleAck (p : Packet) : ChatM Unit := do
  let key ← Json.hash ((p.get? "message_id").getD .null)
  if let some state := (← get).lookup key then
    if state.timeoutTask then
      modify fun s => { s with sleeping := s.sleeping.filter (· ≠ state.messageId) }
    modify fun s => { s with pending := s.pending.erase state.messageId }
    notifyStatus state.messageId .delivered

-- `_handle_incoming_chat`. The reply and the notification of the user change nothing here.
def handleIncomingChat (p : Packet) : ChatM Unit :=
  discard (p.item "message_id")

-- `_dispatch`, and `_on_network_message` likewise. Messages of other types belong to other sessions.
def dispatch (p : Packet) : ChatM Unit :=
  if p.type? = some (.ofString "chat") then handleIncomingChat p
  else if p.type? = some (.ofString "chat_ack") then handleAck p
  else return

-- `send_chat` until its `await`
def sendChat (messageId : Text) (addrKey : Str) (text : Str) : ChatM Unit := do
  if Protocol.replacedSize text > Protocol.maxChatTextSize then
    notifyStatus messageId .failed
  else
    modify fun s => { s with
      pending := s.pending.replace { messageId, addrKey }
      sending := messageId :: s.sending }

-- How `manager.send` ends
inductive SendResult
  | ok
  | notOk
  | raises
  deriving DecidableEq

-- The rest of `send_chat`
def resumeSendChat (messageId : Text) : SendResult → ChatM Unit
  | .raises => return
  | .notOk  => do
    modify fun s => { s with pending := s.pending.erase messageId }
    notifyStatus messageId .failed
  | .ok => do
    if ((← get).pending.find? messageId).isSome then
      modify fun s => { s with
        pending  := s.pending.update messageId ({ · with timeoutTask := true }) fun _ => rfl
        sleeping := messageId :: s.sleeping }

-- The end of the sleep of `_timeout_watcher`
def resumeTimeoutWatcher (messageId : Text) : ChatM Unit := do
  if ((← get).pending.find? messageId).isSome then
    modify fun s => { s with pending := s.pending.erase messageId }
    notifyStatus messageId .failed

end ChatState

inductive ChatEvent
  | sendChat (messageId : Text) (addrKey : Str) (text : Str)
  | sendEnds (messageId : Text) (result : ChatState.SendResult)
  | receive (p : Packet)
  | wakeUp (messageId : Text)

namespace ChatState

-- The state in which a task leaves the session, whether or not it raises
def after (s : ChatState) (x : ChatM Unit) : ChatState :=
  (x.run s).state

-- The text of the id that an acknowledgment carries
def ackId? (p : Packet) : Option Text :=
  if p.type? = some (.ofString "chat_ack") then p.header.text? "message_id" else none

def step (s : ChatState) : ChatEvent → Option ChatState
  -- `uuid4` gives an id that has not been used.
  | .sendChat messageId addrKey text =>
    if messageId ∈ s.issued then none
    else some <| { s with issued := messageId :: s.issued }.after (sendChat messageId addrKey text)
  | .sendEnds messageId result =>
    if messageId ∈ s.sending then
      some <| { s with sending := s.sending.erase messageId }.after (resumeSendChat messageId result)
    else none
  | .receive p => some <| { s with acks := (ackId? p).toList ++ s.acks }.after (dispatch p)
  | .wakeUp messageId =>
    if messageId ∈ s.sleeping then
      some <| { s with sleeping := s.sleeping.filter (· ≠ messageId) }.after
        (resumeTimeoutWatcher messageId)
    else none

end ChatState

def ChatState.machine : Machine ChatState ChatEvent where
  Init s := s = {}
  step   := ChatState.step
