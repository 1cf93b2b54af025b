import Mathlib.Data.List.Count
import Mathlib.Data.Set.Insert
import Peerc.Events.Bus

-- Who is reached by an event

-- The calls that change what is subscribed
inductive BusCall (κ η : Type)
  | subscribe (eventType : κ) (handler : η)
  | unsubscribe (eventType : κ) (handler : η)
  | subscribeAll (handler : η)
  | unsubscribeAll (handler : η)
  | clear

-- What is subscribed: a handler to a class, or to everything
abbrev Subscriptions (κ η : Type) := Set (Option κ × η)

variable {κ η ε σ : Type}

namespace Subscriptions

def after (S : Subscriptions κ η) : BusCall κ η → Subscriptions κ η
  | .subscribe eventType handler   => insert (some eventType, handler) S
  | .unsubscribe eventType handler => S \ {(some eventType, handler)}
  | .subscribeAll handler          => insert (none, handler) S
  | .unsubscribeAll handler        => S \ {(none, handler)}
  | .clear                         => ∅

def ofCalls (calls : List (BusCall κ η)) : Subscriptions κ η :=
  calls.foldl after ∅

-- The handlers of the class of an event, of the classes above it, and of everything
def Reaches (S : Subscriptions κ η) (H : Hierarchy κ ε) (event : ε) (handler : η) : Prop :=
  (none, handler) ∈ S ∨ ∃ t, H.Inherits (H.typeOf event) t ∧ (some t, handler) ∈ S

end Subscriptions

namespace EventBus

variable {bus : EventBus κ η} {H : Hierarchy κ ε} {event : ε} {t eventType : κ} {h handler : η} [DecidableEq κ]

-- The list of a class, which is empty if there is none
def handlersOf (subscribers : Table κ (κ × List η) Prod.fst) (eventType : κ) : List η :=
  ((subscribers.find? eventType).map Prod.snd).getD []

-- What the tables of a bus say
def subscriptions (bus : EventBus κ η) : Subscriptions κ η :=
  { x | match x.fst with
    | some t => x.snd ∈ handlersOf bus.subscribers t
    | none   => x.snd ∈ bus.wildcardSubscribers }

theorem mem_subscriptions_some : (some t, h) ∈ bus.subscriptions ↔ h ∈ handlersOf bus.subscribers t := Iff.rfl

theorem mem_subscriptions_none : (none, h) ∈ bus.subscriptions ↔ h ∈ bus.wildcardSubscribers := Iff.rfl

theorem subscriptions_empty : (empty : EventBus κ η).subscriptions = ∅ := by
  ext ⟨_ | t, h⟩
  case none => simp [empty, mem_subscriptions_none]
  case some => simp [empty, mem_subscriptions_some, handlersOf]

theorem handlersOf_nodup : (handlersOf bus.subscribers t).Nodup := by
  unfold handlersOf
  cases hf : bus.subscribers.find? t
  case none => exact List.nodup_nil
  case some r => exact bus.nodup r (Table.mem_of_find? hf)

theorem handlersOf_setdefault : handlersOf (bus.setdefault eventType) t = handlersOf bus.subscribers t := by
  unfold setdefault
  cases hi : bus.subscribers.insert? (eventType, [])
  case none => rfl
  case some s =>
    have hn : bus.subscribers.find? eventType = none := by
      by_contra hc
      have hi' : bus.subscribers.insert? (eventType, []) = none :=
        Table.insert?_eq_none_iff.mpr (Option.ne_none_iff_isSome.mp hc)
      cases hi'.symm.trans hi
    rw [Option.getD_some, handlersOf, Table.find?_insert? hi]
    split
    case isTrue ht => rw [handlersOf, ht, hn]; rfl
    case isFalse => rfl

theorem handlersOf_updateList {subscribers : Table κ (κ × List η) Prod.fst} {f : List η → List η}
    (hs : (subscribers.find? eventType).isSome) :
    handlersOf (updateList subscribers eventType f) t =
      if t = eventType then f (handlersOf subscribers t) else handlersOf subscribers t := by
  rw [handlersOf, updateList, Table.find?_update]
  split
  case isTrue ht =>
    obtain ⟨r, hr⟩ := Option.isSome_iff_exists.mp hs
    rw [handlersOf, ht, hr]
    rfl
  case isFalse => rfl

theorem isSome_find?_setdefault : ((bus.setdefault eventType).find? eventType).isSome := by
  unfold setdefault
  cases hi : bus.subscribers.insert? (eventType, [])
  case none => exact Table.insert?_eq_none_iff.mp hi
  case some s =>
    rw [Option.getD_some, Table.find?_insert? hi, if_pos rfl]
    rfl

-- The handlers of the classes that an event belongs to
def matching (H : Hierarchy κ ε) (event : ε) (rows : List (κ × List η)) : List η :=
  (rows.filter fun r => H.issubclass (H.typeOf event) r.fst).flatMap Prod.snd

theorem mem_matching {subscribers : Table κ (κ × List η) Prod.fst} : h ∈ matching H event subscribers.rows ↔
    ∃ t, H.Inherits (H.typeOf event) t ∧ h ∈ handlersOf subscribers t := by
  have hl {r : κ × List η} (hf : subscribers.find? r.fst = some r) : handlersOf subscribers r.fst = r.snd := by
    rw [handlersOf, hf]
    rfl
  rw [matching, List.mem_flatMap]
  constructor
  case mp =>
    rintro ⟨r, hr, hh⟩
    obtain ⟨hr, hc⟩ := List.mem_filter.mp hr
    exact ⟨r.fst, H.issubclass_iff.mp hc, (hl (Table.find?_of_mem hr)).symm ▸ hh⟩
  case mpr =>
    rintro ⟨t, hc, hh⟩
    cases hf : subscribers.find? t
    case none =>
      rw [handlersOf, hf] at hh
      cases hh
    case some r =>
      obtain rfl := Table.key_of_find? hf
      exact ⟨r, List.mem_filter.mpr ⟨Table.mem_of_find? hf, H.issubclass_iff.mpr hc⟩, hl hf ▸ hh⟩

variable [DecidableEq η]

def exec (bus : EventBus κ η) : BusCall κ η → EventBus κ η
  | .subscribe eventType handler   => bus.subscribe eventType handler
  | .unsubscribe eventType handler => (bus.unsubscribe eventType handler).snd
  | .subscribeAll handler          => bus.subscribeAll handler
  | .unsubscribeAll handler        => (bus.unsubscribeAll handler).snd
  | .clear                         => bus.clear

def run (calls : List (BusCall κ η)) : EventBus κ η :=
  calls.foldl exec empty

theorem subscriptions_subscribe :
    (bus.subscribe eventType handler).subscriptions = insert (some eventType, handler) bus.subscriptions := by
  ext ⟨_ | t, h⟩
  case none => simp [mem_subscriptions_none, subscribe]
  case some =>
    rw [mem_subscriptions_some, subscribe, handlersOf_updateList isSome_find?_setdefault, handlersOf_setdefault]
    split
    case isTrue ht => simp [mem_appendNew, mem_subscriptions_some, ht]
    case isFalse ht => simp [mem_subscriptions_some, ht]

theorem wildcardSubscribers_unsubscribe :
    (bus.unsubscribe eventType handler).snd.wildcardSubscribers = bus.wildcardSubscribers := by
  unfold unsubscribe
  split
  case h_1 => rfl
  case h_2 =>
    split
    case isTrue => split <;> rfl
    case isFalse => rfl

theorem handlersOf_unsubscribe : handlersOf (bus.unsubscribe eventType handler).snd.subscribers t =
    if t = eventType then (handlersOf bus.subscribers t).erase handler else handlersOf bus.subscribers t := by
  unfold unsubscribe
  cases hf : bus.subscribers.find? eventType
  case none =>
    by_cases ht : t = eventType
    case pos => rw [if_pos ht, handlersOf, ht, hf]; rfl
    case neg => rw [if_neg ht]
  case some r =>
    have hl : handlersOf bus.subscribers eventType = r.snd := by rw [handlersOf, hf]; rfl
    simp only
    by_cases hm : handler ∈ r.snd
    case neg =>
      rw [if_neg hm]
      split
      case isTrue ht => rw [ht, hl, List.erase_of_not_mem hm]
      case isFalse => rfl
    case pos =>
      rw [if_pos hm]
      by_cases he : r.snd.erase handler = []
      case pos =>
        rw [if_pos he, handlersOf, Table.find?_erase]
        split
        case isTrue ht => rw [ht, hl, he]; rfl
        case isFalse => rfl
      case neg =>
        rw [if_neg he]
        exact handlersOf_updateList (hf ▸ rfl)

theorem subscriptions_unsubscribe :
    (bus.unsubscribe eventType handler).snd.subscriptions = bus.subscriptions \ {(some eventType, handler)} := by
  ext ⟨_ | t, h⟩
  case none => simp [mem_subscriptions_none, wildcardSubscribers_unsubscribe]
  case some =>
    rw [mem_subscriptions_some, handlersOf_unsubscribe]
    split
    case isTrue ht => simp [handlersOf_nodup.mem_erase_iff, mem_subscriptions_some, ht, and_comm]
    case isFalse ht => simp [mem_subscriptions_some, ht]

theorem subscriptions_subscribeAll :
    (bus.subscribeAll handler).subscriptions = insert (none, handler) bus.subscriptions := by
  ext ⟨_ | t, h⟩
  case none => simp [mem_subscriptions_none, subscribeAll, mem_appendNew]
  case some => simp [mem_subscriptions_some, subscribeAll]

theorem subscriptions_unsubscribeAll :
    (bus.unsubscribeAll handler).snd.subscriptions = bus.subscriptions \ {(none, handler)} := by
  have hw : (bus.unsubscribeAll handler).snd.wildcardSubscribers = bus.wildcardSubscribers.erase handler := by
    unfold unsubscribeAll
    split
    case isTrue => rfl
    case isFalse hm => exact (List.erase_of_not_mem hm).symm
  have hs : (bus.unsubscribeAll handler).snd.subscribers = bus.subscribers := by
    unfold unsubscribeAll
    split <;> rfl
  ext ⟨_ | t, h⟩
  case none => simp [mem_subscriptions_none, hw, bus.wildcard_nodup.mem_erase_iff, and_comm]
  case some => simp [mem_subscriptions_some, hs]

-- The tables hold what the calls have left.
theorem subscriptions_exec (call : BusCall κ η) : (bus.exec call).subscriptions = bus.subscriptions.after call := by
  cases call
  case subscribe => exact subscriptions_subscribe
  case unsubscribe => exact subscriptions_unsubscribe
  case subscribeAll => exact subscriptions_subscribeAll
  case unsubscribeAll => exact subscriptions_unsubscribeAll
  case clear => exact subscriptions_empty

theorem subscriptions_foldl (calls : List (BusCall κ η)) :
    (calls.foldl exec bus).subscriptions = calls.foldl .after bus.subscriptions := by
  induction calls generalizing bus
  case nil => rfl
  case cons call calls hi => rw [List.foldl_cons, List.foldl_cons, hi, subscriptions_exec]

theorem subscriptions_run (calls : List (BusCall κ η)) : (run calls).subscriptions = .ofCalls calls := by
  rw [run, subscriptions_foldl, subscriptions_empty, Subscriptions.ofCalls]

-- The handlers of an event are gone through in the order of the tables, each of them once.

variable {C : Callables κ η ε σ} {matched handlers : List η}

theorem mem_foldl_appendNew : h ∈ handlers.foldl appendNew matched ↔ h ∈ matched ∨ h ∈ handlers := by
  induction handlers generalizing matched
  case nil => simp
  case cons handler handlers hi => rw [List.foldl_cons, hi, mem_appendNew, List.mem_cons, or_left_comm, or_assoc]

theorem nodup_foldl_appendNew (hm : matched.Nodup) : (handlers.foldl appendNew matched).Nodup := by
  induction handlers generalizing matched
  case nil => exact hm
  case cons handler handlers hi => exact hi (nodup_appendNew hm)

omit [DecidableEq κ] in
theorem foldlM_addHandler : handlers.foldlM (addHandler C) matched =
    if handlers.all C.hashable then some (handlers.foldl appendNew matched) else none := by
  induction handlers generalizing matched
  case nil => rfl
  case cons handler handlers hi =>
    by_cases hh : C.hashable handler
    case pos => simp [addHandler, hh, hi]
    case neg => simp [addHandler, hh]

theorem foldlM_rows {rows : List (κ × List η)} :
    rows.foldlM (fun matched (registeredType, handlers) =>
      if H.issubclass (H.typeOf event) registeredType then handlers.foldlM (addHandler C) matched
      else some matched) matched = (matching H event rows).foldlM (addHandler C) matched := by
  induction rows generalizing matched
  case nil => rfl
  case cons r rows hi =>
    rw [List.foldlM_cons, matching]
    by_cases hr : H.issubclass (H.typeOf event) r.fst
    case pos =>
      simp only [hr, if_true, List.filter_cons_of_pos, List.flatMap_cons, List.foldlM_append]
      exact bind_congr fun matched => hi
    case neg =>
      simp only [hr, if_false, Bool.false_eq_true, List.filter_cons_of_neg, not_false_eq_true, Option.bind_eq_bind,
        Option.bind_some]
      exact hi

def candidates (H : Hierarchy κ ε) (event : ε) (bus : EventBus κ η) : List η :=
  matching H event bus.subscribers.rows ++ bus.wildcardSubscribers

theorem collectHandlers_eq : collectHandlers H C bus event =
    if (candidates H event bus).all C.hashable then some ((candidates H event bus).foldl appendNew [])
    else none := by
  rw [collectHandlers, foldlM_rows, ← foldlM_addHandler, candidates, List.foldlM_append]

omit [DecidableEq η] in
theorem mem_candidates : h ∈ candidates H event bus ↔ bus.subscriptions.Reaches H event h := by
  rw [candidates, List.mem_append, mem_matching, or_comm]
  rfl

theorem collectHandlers_eq_some (hc : collectHandlers H C bus event = some handlers) :
    handlers.Nodup ∧ ∀ h, h ∈ handlers ↔ bus.subscriptions.Reaches H event h := by
  rw [collectHandlers_eq] at hc
  obtain ⟨-, he⟩ := Option.ite_none_right_eq_some.mp hc
  cases he
  refine ⟨nodup_foldl_appendNew List.nodup_nil, fun h => ?_⟩
  rw [mem_foldl_appendNew, mem_candidates, or_iff_right List.not_mem_nil]

theorem collectHandlers_eq_none (hc : collectHandlers H C bus event = none) :
    ∃ h, bus.subscriptions.Reaches H event h ∧ ¬C.hashable h := by
  rw [collectHandlers_eq] at hc
  simpa [mem_candidates] using hc

-- The loop calls all of the handlers, or those up to one that ends it.
omit [DecidableEq κ] [DecidableEq η] in
theorem deliver_cases (C : Callables κ η ε σ) (event : ε) (handlers : List η) (state : EventBus κ η × σ) :
    let d := deliver C event handlers state
    (d.result = .returned ∧ d.invoked = handlers) ∨
    (d.result = .exit ∧ d.invoked <+: handlers ∧
      ∃ h state, d.invoked.getLast? = some h ∧ (C.call h event state).fst = .exit) := by
  induction handlers generalizing state
  case nil => exact .inl ⟨rfl, rfl⟩
  case cons handler handlers hi =>
    -- After a call that has not ended the loop
    have hrest (state : EventBus κ η × σ) :
        let rest := deliver C event handlers state
        (rest.result = .returned ∧ handler :: rest.invoked = handler :: handlers) ∨
        (rest.result = .exit ∧ handler :: rest.invoked <+: handler :: handlers ∧
          ∃ h state, (handler :: rest.invoked).getLast? = some h ∧ (C.call h event state).fst = .exit) := by
      rcases hi state with ⟨hr, hd⟩ | ⟨hr, hd, h, s, hl, he⟩
      · exact .inl ⟨hr, congrArg _ hd⟩
      · exact .inr ⟨hr, List.cons_prefix_cons.mpr ⟨rfl, hd⟩, h, s, by rw [List.getLast?_cons, hl]; rfl, he⟩
    rw [deliver]
    rcases hc : C.call handler event state with ⟨_ | _ | _, state'⟩
    case exit => exact .inr ⟨rfl, ⟨handlers, rfl⟩, handler, state, rfl, by rw [hc]⟩
    case returned => exact hrest state'
    case exception => exact hrest state'

end EventBus

-- What a call of `publish` has done for an event that reaches some handlers
def DeliversOnce (C : Callables κ η ε σ) (event : ε) (R : η → Prop) [DecidableEq η] (d : Publication κ η σ) : Prop :=
  match d.result with
  | .returned  => ∀ h, (R h → d.invoked.count h = 1) ∧ (¬R h → d.invoked.count h = 0)
  | .exit      =>
    (∀ h, d.invoked.count h ≤ 1 ∧ (¬R h → d.invoked.count h = 0)) ∧
    ∃ h state, d.invoked.getLast? = some h ∧ (C.call h event state).fst = .exit
  | .typeError => d.invoked = [] ∧ ∃ h, R h ∧ ¬C.hashable h

theorem event_bus_delivers_once [DecidableEq κ] [DecidableEq η] (H : Hierarchy κ ε) (C : Callables κ η ε σ)
    (calls : List (BusCall κ η)) (event : ε) (world : σ) :
    DeliversOnce C event (Subscriptions.Reaches (.ofCalls calls) H event)
      (EventBus.publish H C event (EventBus.run calls, world)) := by
  rw [← EventBus.subscriptions_run calls, EventBus.publish]
  cases hc : EventBus.collectHandlers H C (EventBus.run calls) event
  case none => exact ⟨rfl, EventBus.collectHandlers_eq_none hc⟩
  case some handlers =>
    obtain ⟨hn, hm⟩ := EventBus.collectHandlers_eq_some hc
    rcases EventBus.deliver_cases C event handlers (EventBus.run calls, world) with ⟨hr, hi⟩ | ⟨hr, hi, he⟩
    · simp only [DeliversOnce, hr, hi, ← hm]
      exact fun h => ⟨List.count_eq_one_of_mem hn, List.count_eq_zero_of_not_mem⟩
    · simp only [DeliversOnce, hr, ← hm]
      refine ⟨fun h => ⟨?_, fun hh => ?_⟩, he⟩
      · exact List.nodup_iff_count_le_one.mp (hn.sublist hi.sublist) h
      · exact List.count_eq_zero_of_not_mem fun h' => hh (hi.subset h')

namespace EventBus.Twice

-- Two handlers of one class

def hierarchy : Hierarchy Unit Unit where
  typeOf  := id
  bases _ := []
  mro _   := [()]
  mem_mro := iff_of_true List.mem_cons_self .refl

def calls : List (BusCall Unit Bool) :=
  [.subscribe () true, .subscribe () false]

theorem reaches_calls (h : Bool) : Subscriptions.Reaches (.ofCalls calls) hierarchy () h := by
  refine .inr ⟨(), .refl, ?_⟩
  cases h
  case false => exact Set.mem_insert _ _
  case true => exact Set.mem_insert_of_mem _ (Set.mem_insert _ _)

end EventBus.Twice

-- The first handler is cancelled, and the second one is not called.
open EventBus.Twice in
theorem event_bus_stops_at_exit : ∃ (H : Hierarchy Unit Unit) (C : Callables Unit Bool Unit Unit)
    (calls : List (BusCall Unit Bool)), (∀ h, C.hashable h) ∧ Subscriptions.Reaches (.ofCalls calls) H () false ∧
    (EventBus.publish H C () (EventBus.run calls, ())).invoked = [true] := by
  let C : Callables Unit Bool Unit Unit :=
    { hashable := fun _ => true, call := fun h _ state => (if h then .exit else .returned, state) }
  exact ⟨hierarchy, C, calls, fun _ => rfl, reaches_calls false, rfl⟩

-- Every call returns, but the second handler is not hashable, and neither of them is called.
open EventBus.Twice in
theorem event_bus_refuses_unhashable : ∃ (H : Hierarchy Unit Unit) (C : Callables Unit Bool Unit Unit)
    (calls : List (BusCall Unit Bool)), (∀ h event state, (C.call h event state).fst = .returned) ∧
    (∀ h, Subscriptions.Reaches (.ofCalls calls) H () h) ∧
    (EventBus.publish H C () (EventBus.run calls, ())).invoked = [] := by
  let C : Callables Unit Bool Unit Unit := { hashable := id, call := fun _ _ state => (.returned, state) }
  exact ⟨hierarchy, C, calls, fun _ _ _ => rfl, reaches_calls, rfl⟩
