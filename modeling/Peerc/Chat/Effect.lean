import Peerc.Chat.Basic

-- What each part of a task does to the session

namespace ChatState

variable {s : ChatState} {id : Text} {m : SentMessage}

-- An entry is removed, and its status reported.
def resolve (s : ChatState) (id : Text) (status : ChatStatus) : ChatState :=
  { s with pending := s.pending.erase id, statuses := (id, status) :: s.statuses }

def deliver (s : ChatState) (m : SentMessage) : ChatState :=
  { s with sleeping := if m.timeoutTask then s.sleeping.filter (· ≠ m.messageId) else s.sleeping }.resolve
    m.messageId .delivered

theorem lookup_of_key? {v : Json} {key : Json.Key} (h : v.key? = some key) :
    s.lookup key = v.str?.bind s.pending.find? := by
  cases key
  case str id => rw [Json.key?_eq_str.mp h]; rfl
  all_goals
    cases v
    case str => cases h
    all_goals rfl

theorem after_handleAck (p : Packet) :
    s.after (handleAck p) = ((p.header.text? "message_id").bind s.pending.find?).elim s s.deliver := by
  have ht : p.header.text? "message_id" = ((p.get? "message_id").getD .null).str? := by
    change (p.get? "message_id").bind Json.str? = _
    cases p.get? "message_id" <;> rfl
  rw [ht]
  simp only [after, handleAck, EStateM.run_bind]
  generalize (p.get? "message_id").getD .null = v
  cases hk : v.key?
  case none =>
    obtain ⟨e, he, _⟩ := Json.hash_of_none hk
    have hs : v.str? = none := by
      cases v
      case str => cases hk
      all_goals rfl
    rw [hs, he]
    rfl
  case some key =>
    simp only [Json.hash_of_key? hk, EStateM.run_liftM_ok, EStateM.run_get, lookup_of_key? hk]
    cases v.str?.bind s.pending.find?
    case none => rfl
    case some m =>
      cases hm : m.timeoutTask <;>
        simp only [hm, Bool.false_eq_true, if_false, if_true, EStateM.run_bind, EStateM.run_modify,
          notifyStatus, Option.elim, deliver, resolve] <;> rfl

-- Only an acknowledgment of a message that is waited for changes anything.
theorem after_dispatch (p : Packet) :
    s.after (dispatch p) = ((ackId? p).bind s.pending.find?).elim s s.deliver := by
  unfold dispatch ackId?
  by_cases hc : p.type? = some (.ofString "chat")
  case pos =>
    have hn : p.type? ≠ some (.ofString "chat_ack") := by rw [hc]; decide
    rw [if_pos hc, if_neg hn]
    exact EStateM.state_discard _ _ |>.trans (by unfold Packet.item; split <;> rfl)
  case neg =>
    rw [if_neg hc]
    split
    case isTrue => exact after_handleAck p
    case isFalse => rfl

theorem after_sendChat (id : Text) (addrKey text : Str) :
    s.after (sendChat id addrKey text) =
      if Protocol.replacedSize text > Protocol.maxChatTextSize then
        { s with statuses := (id, .failed) :: s.statuses }
      else
        { s with
          pending := s.pending.replace { messageId := id, addrKey }
          sending := id :: s.sending } := by
  unfold sendChat
  split <;> rfl

theorem after_resumeSendChat_ok (hm : s.pending.find? id = some m) :
    s.after (resumeSendChat id .ok) = { s with
      pending  := s.pending.update id ({ · with timeoutTask := true }) fun _ => rfl
      sleeping := id :: s.sleeping } := by
  simp only [after, resumeSendChat, EStateM.run_bind, EStateM.run_get, hm, Option.isSome_some, if_true,
    EStateM.run_modify]
  rfl

theorem after_resumeSendChat_gone (hn : s.pending.find? id = none) :
    s.after (resumeSendChat id .ok) = s := by
  simp only [after, resumeSendChat, EStateM.run_bind, EStateM.run_get, hn, Option.isSome_none,
    Bool.false_eq_true, if_false]
  rfl

theorem after_resumeTimeoutWatcher :
    s.after (resumeTimeoutWatcher id) = (s.pending.find? id).elim s fun _ => s.resolve id .failed := by
  simp only [after, resumeTimeoutWatcher, EStateM.run_bind, EStateM.run_get]
  cases hm : s.pending.find? id <;>
    simp only [Option.isSome_some, Option.isSome_none, Bool.false_eq_true, if_true, if_false,
      EStateM.run_bind, EStateM.run_modify, notifyStatus, Option.elim, resolve] <;> rfl

end ChatState
