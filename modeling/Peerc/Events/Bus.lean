import Mathlib.Logic.Relation
import Peerc.Lib.Table

-- core/events.py

-- The classes of the events. `issubclass` looks for a class in the linearization of another one, in which stand the
-- class itself and everything that it inherits from.
structure Hierarchy (κ ε : Type) where
  typeOf  : ε → κ
  bases   : κ → List κ
  mro     : κ → List κ
  mem_mro : ∀ {c t}, t ∈ mro c ↔ Relation.ReflTransGen (fun a b => b ∈ bases a) c t

namespace Hierarchy

variable {κ ε : Type} (H : Hierarchy κ ε)

def Inherits (c t : κ) : Prop :=
  Relation.ReflTransGen (fun a b => b ∈ H.bases a) c t

def issubclass [DecidableEq κ] (c t : κ) : Bool :=
  t ∈ H.mro c

theorem issubclass_iff [DecidableEq κ] {c t : κ} : H.issubclass c t ↔ H.Inherits c t :=
  decide_eq_true_iff.trans H.mem_mro

end Hierarchy

-- `_subscribers` is a `dict` of lists. No handler is twice in a list.
structure EventBus (κ η : Type) where
  subscribers         : Table κ (κ × List η) Prod.fst
  wildcardSubscribers : List η
  nodup          : ∀ r ∈ subscribers.rows, r.snd.Nodup
  wildcard_nodup : wildcardSubscribers.Nodup

namespace EventBus

variable {κ η : Type}

theorem nodup_empty : ∀ r ∈ (Table.empty : Table κ (κ × List η) Prod.fst).rows, r.snd.Nodup :=
  List.forall_mem_nil _

def empty : EventBus κ η where
  subscribers         := .empty
  wildcardSubscribers := []
  nodup               := nodup_empty
  wildcard_nodup      := List.nodup_nil

-- `if handler not in handlers: handlers.append(handler)`
def appendNew [DecidableEq η] (handlers : List η) (handler : η) : List η :=
  if handler ∈ handlers then handlers else handlers ++ [handler]

theorem mem_appendNew [DecidableEq η] {handlers : List η} {h handler : η} :
    h ∈ appendNew handlers handler ↔ h = handler ∨ h ∈ handlers := by
  unfold appendNew
  split
  case isTrue hm =>
    constructor
    · exact .inr
    · rintro (rfl | h)
      · exact hm
      · exact h
  case isFalse => rw [List.mem_append, List.mem_singleton, or_comm]

theorem nodup_appendNew [DecidableEq η] {handlers : List η} {handler : η} (h : handlers.Nodup) :
    (appendNew handlers handler).Nodup := by
  unfold appendNew
  split
  case isTrue => exact h
  case isFalse hm => exact List.nodup_append.mpr ⟨h, List.nodup_singleton _, by grind⟩

section

variable [DecidableEq κ] (bus : EventBus κ η)

-- `_subscribers.setdefault(event_type, [])`
def setdefault (eventType : κ) : Table κ (κ × List η) Prod.fst :=
  (bus.subscribers.insert? (eventType, [])).getD bus.subscribers

-- The list of a class is changed in place.
def updateList (subscribers : Table κ (κ × List η) Prod.fst) (eventType : κ) (f : List η → List η) :
    Table κ (κ × List η) Prod.fst :=
  subscribers.update eventType (fun r => (r.fst, f r.snd)) fun _ => rfl

theorem nodup_updateList {subscribers : Table κ (κ × List η) Prod.fst} {eventType : κ} {f : List η → List η}
    (hf : ∀ {hs}, hs.Nodup → (f hs).Nodup) (h : ∀ r ∈ subscribers.rows, r.snd.Nodup) :
    ∀ r ∈ (updateList subscribers eventType f).rows, r.snd.Nodup := by
  intro r hr
  obtain ⟨r', hr', rfl⟩ := List.mem_map.mp hr
  split
  case isTrue => exact hf (h r' hr')
  case isFalse => exact h r' hr'

theorem nodup_setdefault {eventType : κ} : ∀ r ∈ (bus.setdefault eventType).rows, r.snd.Nodup := by
  unfold setdefault
  cases h : bus.subscribers.insert? (eventType, [])
  case none => exact bus.nodup
  case some t =>
    intro r hr
    rw [Option.getD_some, Table.insert?_rows h] at hr
    rcases List.mem_append.mp hr with hr | hr
    · exact bus.nodup r hr
    · cases List.mem_singleton.mp hr
      exact List.nodup_nil

end

variable [DecidableEq κ] [DecidableEq η] (bus : EventBus κ η)

def subscribe (eventType : κ) (handler : η) : EventBus κ η where
  subscribers         := updateList (bus.setdefault eventType) eventType (appendNew · handler)
  wildcardSubscribers := bus.wildcardSubscribers
  nodup               := nodup_updateList nodup_appendNew bus.nodup_setdefault
  wildcard_nodup      := bus.wildcard_nodup

-- The entry of a class is dropped with its last handler.
def unsubscribe (eventType : κ) (handler : η) : Bool × EventBus κ η :=
  match bus.subscribers.find? eventType with
  | none               => (false, bus)
  | some (_, handlers) =>
    if handler ∈ handlers then
      if handlers.erase handler = [] then
        (true, { bus with
          subscribers := bus.subscribers.erase eventType
          nodup       := fun r hr => bus.nodup r (Table.mem_erase.mp hr).left })
      else
        (true, { bus with
          subscribers := updateList bus.subscribers eventType (·.erase handler)
          nodup       := nodup_updateList (fun h => h.erase handler) bus.nodup })
    else (false, bus)

def subscribeAll (handler : η) : EventBus κ η :=
  { bus with
    wildcardSubscribers := appendNew bus.wildcardSubscribers handler
    wildcard_nodup      := nodup_appendNew bus.wildcard_nodup }

def unsubscribeAll (handler : η) : Bool × EventBus κ η :=
  if handler ∈ bus.wildcardSubscribers then
    (true, { bus with
      wildcardSubscribers := bus.wildcardSubscribers.erase handler
      wildcard_nodup      := bus.wildcard_nodup.erase handler })
  else (false, bus)

def clear (_ : EventBus κ η) : EventBus κ η :=
  empty

end EventBus

-- How a call of a handler ends, an awaitable that it returns included. `exit` is an exception that is no `Exception`,
-- such as `asyncio.CancelledError`.
inductive CallOutcome
  | returned
  | exception
  | exit

-- The handlers, of which nothing is known: a call may change the bus and everything else. While it is awaited, so may
-- other tasks.
structure Callables (κ η ε σ : Type) where
  hashable : η → Bool
  call     : η → ε → EventBus κ η × σ → CallOutcome × EventBus κ η × σ

inductive PublishResult
  | returned
  -- A handler that is not hashable
  | typeError
  | exit

structure Publication (κ η σ : Type) where
  invoked : List η
  result  : PublishResult
  state   : EventBus κ η × σ

namespace EventBus

variable {κ η ε σ : Type} [DecidableEq κ] [DecidableEq η] (H : Hierarchy κ ε) (C : Callables κ η ε σ)

-- `if h not in seen: ...`, where `seen` is the set of the handlers that have been matched
def addHandler (matched : List η) (handler : η) : Option (List η) :=
  if C.hashable handler then some (appendNew matched handler) else none

def collectHandlers (bus : EventBus κ η) (event : ε) : Option (List η) := do
  let matched ← bus.subscribers.rows.foldlM (fun matched (registeredType, handlers) =>
    if H.issubclass (H.typeOf event) registeredType then handlers.foldlM (addHandler C) matched
    else some matched) []
  bus.wildcardSubscribers.foldlM (addHandler C) matched

-- The loop of `publish`, which goes on after an `Exception`
def deliver (event : ε) : List η → EventBus κ η × σ → Publication κ η σ
  | [],                  state => ⟨[], .returned, state⟩
  | handler :: handlers, state =>
    match C.call handler event state with
    | (.exit, state) => ⟨[handler], .exit, state⟩
    | (_, state)     =>
      let rest := deliver event handlers state
      { rest with invoked := handler :: rest.invoked }

def publish (event : ε) (state : EventBus κ η × σ) : Publication κ η σ :=
  match collectHandlers H C state.fst event with
  | none          => ⟨[], .typeError, state⟩
  | some handlers => deliver C event handlers state

end EventBus
