import Peerc.Lib.Machine
import Peerc.Lib.Str
import Peerc.Lib.Table

-- peer.py

-- A connection is an object: two of them are the same only if their `id` is.
structure Connection where
  id      : Nat
  addrKey : Str
  deriving DecidableEq

structure ConnectionManager where
  maxConnections : Nat
  connections    : Table Str Connection Connection.addrKey := .empty

-- The manager with its tasks at the points where they are suspended
structure ManagerState extends ConnectionManager where
  next       : Nat := 0
  -- Calls of `connect_to` that wait for the connection to be opened
  connecting : List Str := []
  -- Connections from their registration to the end of their read loop
  running    : List Connection := []
  -- Calls of `send` and `send_binary` that wait for `drain`
  draining   : List Connection := []
  -- Connections on which a send has failed
  failed     : List Connection := []

inductive ManagerEvent
  | incoming (addrKey : Str)
  | connectTo (addrKey : Str)
  | opened (addrKey : Str)
  | notOpened (addrKey : Str)
  | loopEnds (conn : Connection)
  | send (addrKey : Str)
  | drained (conn : Connection)
  | drainFails (conn : Connection)

namespace ManagerState

variable (s : ManagerState)

def isFull : Bool :=
  s.maxConnections ≤ s.connections.rows.length

-- `self._connections[addr_key] = conn`, from where on the task of the connection runs its read loop
def register (addrKey : Str) : ManagerState :=
  let conn : Connection := ⟨s.next, addrKey⟩
  { s with connections := s.connections.replace conn, next := s.next + 1, running := conn :: s.running }

def step : ManagerEvent → Option ManagerState
  -- `_handle_incoming`: a full table refuses the connection.
  | .incoming addrKey => some <| if s.isFull then s else s.register addrKey
  -- `connect_to` until its `await`. It returns when there is an entry, and raises when the table is full.
  | .connectTo addrKey => some <|
    if (s.connections.find? addrKey).isSome ∨ s.isFull then s
    else { s with connecting := addrKey :: s.connecting }
  | .opened addrKey =>
    if addrKey ∈ s.connecting then
      some <| { s with connecting := s.connecting.erase addrKey }.register addrKey
    else none
  | .notOpened addrKey =>
    if addrKey ∈ s.connecting then some { s with connecting := s.connecting.erase addrKey } else none
  -- `finally` of `_read_loop`
  | .loopEnds conn =>
    if conn ∈ s.running then
      some { s with
        connections := s.connections.erase conn.addrKey
        running     := s.running.filter (· ≠ conn) }
    else none
  -- `send` until its `await`. Without an entry it returns `False`.
  | .send addrKey => some <|
    match s.connections.find? addrKey with
    | none      => s
    | some conn => { s with draining := conn :: s.draining }
  | .drained conn =>
    if conn ∈ s.draining then some { s with draining := s.draining.erase conn } else none
  -- `ConnectionResetError` or `BrokenPipeError`
  | .drainFails conn =>
    if conn ∈ s.draining then
      some { s with
        connections := s.connections.erase conn.addrKey
        draining    := s.draining.erase conn
        failed      := conn :: s.failed }
    else none

end ManagerState

def ConnectionManager.machine (maxConnections : Nat) : Machine ManagerState ManagerEvent where
  Init s := s = { maxConnections }
  step   := ManagerState.step
