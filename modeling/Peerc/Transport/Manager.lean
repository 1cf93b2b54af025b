import Peerc.Lib.Machine
import Peerc.Lib.Str
import Peerc.Lib.Table

-- `SecureSessionManager` of core/transport/session.py

-- A session is an object: two of them are the same only if their `id` is. Of its other fields the manager
-- reads no more than these.
structure SessionRef where
  id           : Nat
  peerDeviceId : Str
  deriving DecidableEq

structure SecureSessionManager where
  sessions : Table Str SessionRef SessionRef.peerDeviceId := .empty

-- The manager with the sessions of the process, and with its tasks at the points where they are suspended
structure SessionsState extends SecureSessionManager where
  made       : List SessionRef := []
  -- The sessions whose `is_alive` holds
  alive      : List SessionRef := []
  -- Tasks of `register` that have yet to close a session
  closing    : List SessionRef := []
  -- Calls of `close_all`, with the sessions that they have yet to close
  closingAll : List (List SessionRef) := []
  -- What `remove` has handed out
  removed    : List SessionRef := []

inductive SessionsEvent
  | made (session : SessionRef)
  | lost (session : SessionRef)
  | register (session : SessionRef)
  | get (deviceId : Str)
  | remove (deviceId : Str)
  | activeDeviceIds
  | closeAll
  | closeTask (session : SessionRef)
  | closeNext (i : Nat)

namespace SessionsState

variable (s : SessionsState)

-- `session.close()`. Nothing opens a session again.
def close (session : SessionRef) : SessionsState :=
  { s with alive := s.alive.filter (· ≠ session) }

def register (session : SessionRef) : SessionsState :=
  let closing := match s.sessions.find? session.peerDeviceId with
    | some old => if old ∈ s.alive ∧ old ≠ session then old :: s.closing else s.closing
    | none     => s.closing
  { s with sessions := s.sessions.replace session, closing }

def get (deviceId : Str) : Option SessionRef × SessionsState :=
  match s.sessions.find? deviceId with
  | none         => (none, s)
  | some session =>
    if session ∈ s.alive then (some session, s)
    else (none, { s with sessions := s.sessions.erase deviceId })

def remove (deviceId : Str) : Option SessionRef × SessionsState :=
  (s.sessions.find? deviceId, { s with
    sessions := s.sessions.erase deviceId
    removed  := (s.sessions.find? deviceId).toList ++ s.removed })

def activeDeviceIds : List Str × SessionsState :=
  let dead := (s.sessions.rows.filter (· ∉ s.alive)).map (·.peerDeviceId)
  let sessions := dead.foldl Table.erase s.sessions
  (sessions.rows.map (·.peerDeviceId), { s with sessions })

def step : SessionsEvent → Option SessionsState
  | .made session => if session ∈ s.made then none else
    some { s with made := session :: s.made, alive := session :: s.alive }
  -- The peer has gone, or somebody else has closed the session.
  | .lost session => some (s.close session)
  | .register session => if session ∈ s.made then some (s.register session) else none
  | .get deviceId => some (s.get deviceId).snd
  | .remove deviceId => some (s.remove deviceId).snd
  | .activeDeviceIds => some s.activeDeviceIds.snd
  -- `close_all` until it closes the first session
  | .closeAll => some { s with sessions := .empty, closingAll := s.sessions.rows :: s.closingAll }
  | .closeTask session =>
    if session ∈ s.closing then some <| { s with closing := s.closing.erase session }.close session else none
  -- A round of the loop of `close_all`
  | .closeNext i =>
    match s.closingAll[i]? with
    | some (session :: rest) => some <| { s with closingAll := s.closingAll.set i rest }.close session
    | _                      => none

end SessionsState

def SecureSessionManager.machine : Machine SessionsState SessionsEvent where
  Init s := s = {}
  step   := SessionsState.step
