import Peerc.Peer.Manager
import Peerc.Peer.Packet
import Peerc.Protocol.Binary
import Peerc.Protocol.Theorems.Stream

-- `_read_loop` of peer.py

namespace Protocol

section

variable {m : Type → Type} [Monad m] [MonadExceptOf ReadError m] (readExactly : Nat → m Bytes)

-- What one round of the loop dispatches
def nextPacket (P : Primitives) : m Packet := do
  match ← readAnyFrame readExactly P with
  | .json message =>
    match validateMessage message with
    | .ok _    => return .json message
    | .error e => throw (ReadError.frame (.protocolError e))
  | .binary payload =>
    match decodeFileData payload with
    | .ok d    => return .fileData d.transferId d.sequence d.offset d.data
    | .error e => throw (ReadError.frame (.protocolError e))

end

-- A valid frame and what it decodes to
inductive IsFrame (P : Primitives) : Bytes → Packet → Prop
  | json {payload : Bytes} {message : Json} (nonempty : payload ≠ [])
    (size : payload.length ≤ maxMessageSize) (decoded : decodeJson P payload = .ok message)
    (valid : validateMessage message = .ok ()) : IsFrame P (encodeRaw .json payload) (.json message)
  | binary {payload : Bytes} {d : FileData} (size : payload.length ≤ maxMessageSize)
    (decoded : decodeFileData payload = .ok d) :
    IsFrame P (encodeRaw .binary payload) (.fileData d.transferId d.sequence d.offset d.data)

end Protocol

open Protocol

-- The two ways in which a manager passes messages on, if they are set
structure Hooks where
  eventBus  : Bool
  onMessage : Bool

-- The manager with the read loops of its connections
structure ReadLoops extends ManagerState where
  -- What the connections have yet to receive
  readers   : Connection → StreamReader
  -- Messages between `publish` and `on_message`
  handing   : List (Connection × Packet) := []
  published : List (Connection × Packet) := []
  handed    : List (Connection × Packet) := []
  -- Connections whose writer has been closed
  closed    : List Connection := []

inductive LoopEvent
  | other (e : ManagerEvent)
  | read (conn : Connection)
  | handOver (conn : Connection)

namespace ReadLoops

variable (P : Primitives) (hooks : Hooks) (s : ReadLoops)

-- `kind, payload = await read_any_frame(conn.reader)` has returned: up to the `publish` of the message
def dispatch (conn : Connection) (p : Packet) (reader : StreamReader) : ReadLoops :=
  { s with
    readers   := Function.update s.readers conn reader
    handing   := (conn, p) :: s.handing
    published := if hooks.eventBus then s.published ++ [(conn, p)] else s.published }

-- The end of the loop, whatever has been raised: `IncompleteReadError` and `ConnectionResetError` when there
-- is no more to receive, `ProtocolError`, or the `ValueError` that is not caught. `finally` is run in any case.
def finish (conn : Connection) : Option ReadLoops :=
  (s.toManagerState.step (.loopEnds conn)).map fun manager =>
    { s with toManagerState := manager, closed := conn :: s.closed }

def step : LoopEvent → Option ReadLoops
  -- What the other tasks do in the meantime. A read loop ends by itself.
  | .other (.loopEnds _) => none
  | .other e => (s.toManagerState.step e).map ({ s with toManagerState := · })
  | .read conn =>
    if conn ∈ s.running ∧ ∀ x ∈ s.handing, x.fst ≠ conn then
      match (nextPacket StreamReader.readExactly P).run (s.readers conn) with
      | .ok p reader => some (s.dispatch hooks conn p reader)
      | .error ..    => s.finish conn
    else none
  | .handOver conn =>
    (s.handing.find? (·.fst = conn)).map fun x =>
      { s with
        handing := s.handing.filter (·.fst ≠ conn)
        handed  := if hooks.onMessage then s.handed ++ [x] else s.handed }

-- The connections have been given what they will receive.
def machine (P : Primitives) (hooks : Hooks) (maxConnections : Nat) (streams : Connection → StreamReader) :
    Machine ReadLoops LoopEvent where
  Init s := s = { maxConnections, readers := streams }
  step   := step P hooks

end ReadLoops
