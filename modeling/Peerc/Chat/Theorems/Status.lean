import Peerc.Chat.Effect

-- How often, and after what, the status of a message becomes final

namespace ChatState

variable {s s' : ChatState} {id id' : Text} {m : SentMessage} {status : ChatStatus}

-- A send that is answered while it drains does not return `False`, and one that raises is answered.
def Settled (s : ChatState) : ChatEvent → Prop
  | .sendEnds id .notOk  => (s.pending.find? id).isSome
  | .sendEnds id .raises => (s.pending.find? id).isNone
  | _                    => True

structure Tracked (s : ChatState) : Prop where
  issued : ∀ id, ((s.pending.find? id).isSome ∨ id ∈ s.statuses.map Prod.fst) → id ∈ s.issued
  silent : ∀ id m, s.pending.find? id = some m → id ∉ s.statuses.map Prod.fst
  once   : (s.statuses.map Prod.fst).Nodup
  armed  : ∀ id m, s.pending.find? id = some m → id ∈ s.sending ∨ (m.timeoutTask ∧ id ∈ s.sleeping)
  acked  : ∀ id, (id, ChatStatus.delivered) ∈ s.statuses → id ∈ s.acks

namespace Tracked

-- A message whose entry is gone has nothing left to wait for.
theorem forget (h : Tracked s) (id : Text) : Tracked { s with pending := s.pending.erase id } := by
  have hf {id' m'} (hm' : (s.pending.erase id).find? id' = some m') : s.pending.find? id' = some m' := by
    rw [Table.find?_erase] at hm'
    split at hm'
    case isTrue => cases hm'
    case isFalse => exact hm'
  constructor
  case issued =>
    rintro id' (hp | hs)
    · obtain ⟨m', hm'⟩ := Option.isSome_iff_exists.mp hp
      exact h.issued id' (.inl <| by rw [hf hm']; rfl)
    · exact h.issued id' (.inr hs)
  case silent => exact fun id' m' hm' => h.silent id' m' (hf hm')
  case once => exact h.once
  case armed => exact fun id' m' hm' => h.armed id' m' (hf hm')
  case acked => exact h.acked

-- The status of a message without an entry becomes final.
theorem record (h : Tracked s) (hi : id ∈ s.issued) (hp : s.pending.find? id = none)
    (hs : id ∉ s.statuses.map Prod.fst) (ha : status = .delivered → id ∈ s.acks) :
    Tracked { s with statuses := (id, status) :: s.statuses } := by
  constructor
  case issued =>
    rintro id' (hm | hm)
    · exact h.issued id' (.inl hm)
    · rcases List.mem_cons.mp hm with rfl | hm
      · exact hi
      · exact h.issued id' (.inr hm)
  case silent =>
    intro id' m' hm' hs'
    rcases List.mem_cons.mp hs' with rfl | hs'
    · cases hp.symm.trans hm'
    · exact h.silent id' m' hm' hs'
  case once => exact List.nodup_cons.mpr ⟨hs, h.once⟩
  case armed => exact h.armed
  case acked =>
    intro id' hd
    rcases List.mem_cons.mp hd with he | hd
    · cases he
      exact ha rfl
    · exact h.acked id' hd

theorem resolve (h : Tracked s) (hm : s.pending.find? id = some m)
    (ha : status = .delivered → id ∈ s.acks) : Tracked (s.resolve id status) := by
  have hi := h.issued id (.inl <| by rw [hm]; rfl)
  have hp : (s.pending.erase id).find? id = none := by rw [Table.find?_erase, if_pos rfl]
  exact (h.forget id).record hi hp (h.silent id m hm) ha

-- A watcher may go once its entry is gone.
theorem wake (h : Tracked s) (hn : s.pending.find? id = none) :
    Tracked { s with sleeping := s.sleeping.filter (· ≠ id) } := by
  refine { h with armed := fun id' m' hm' => ?_ }
  have hne : id' ≠ id := fun he => by cases (he ▸ hn).symm.trans hm'
  exact (h.armed id' m' hm').imp_right fun ha =>
    ⟨ha.left, List.mem_filter.mpr ⟨ha.right, decide_eq_true hne⟩⟩

-- A call of `send_chat` may end once its entry is gone or a watcher has been started.
theorem ended (h : Tracked s)
    (hm : ∀ m, s.pending.find? id = some m → m.timeoutTask ∧ id ∈ s.sleeping) :
    Tracked { s with sending := s.sending.erase id } := by
  refine { h with armed := fun id' m' hm' => ?_ }
  by_cases he : id' = id
  case pos => exact .inr (he ▸ hm m' (he ▸ hm'))
  case neg => exact (h.armed id' m' hm').imp_left (List.mem_erase_of_ne he).mpr

theorem deliver (h : Tracked s) (hm : s.pending.find? id = some m) (ha : id ∈ s.acks) :
    Tracked (s.deliver m) := by
  obtain rfl := Table.key_of_find? hm
  have hr : Tracked (s.resolve m.messageId .delivered) := h.resolve hm fun _ => ha
  unfold ChatState.deliver
  split
  case isFalse => exact hr
  case isTrue => exact hr.wake (by simp [ChatState.resolve, Table.find?_erase])

theorem issue (h : Tracked s) (id : Text) : Tracked { s with issued := id :: s.issued } :=
  { h with issued := fun id' hm => List.mem_cons_of_mem _ (h.issued id' hm) }

-- A message gets its entry, and its call of `send_chat` drains.
theorem await (h : Tracked s) (hi : id ∈ s.issued) (hs : id ∉ s.statuses.map Prod.fst) (addrKey : Str) :
    Tracked { s with
      pending := s.pending.replace { messageId := id, addrKey }
      sending := id :: s.sending } := by
  -- The new entry, or one from before
  have hf {id' m'} (hm' : (s.pending.replace { messageId := id, addrKey }).find? id' = some m') :
      id' = id ∨ s.pending.find? id' = some m' := by
    rw [Table.find?_replace] at hm'
    split at hm'
    case isTrue he => exact .inl he
    case isFalse => exact .inr hm'
  constructor
  case issued =>
    rintro id' (hm | hm)
    · obtain ⟨m', hm'⟩ := Option.isSome_iff_exists.mp hm
      rcases hf hm' with rfl | hm'
      · exact hi
      · exact h.issued id' (.inl <| by rw [hm']; rfl)
    · exact h.issued id' (.inr hm)
  case silent =>
    intro id' m' hm'
    rcases hf hm' with rfl | hm'
    · exact hs
    · exact h.silent id' m' hm'
  case once => exact h.once
  case armed =>
    intro id' m' hm'
    rcases hf hm' with rfl | hm'
    · exact .inl List.mem_cons_self
    · exact (h.armed id' m' hm').imp_left (List.mem_cons_of_mem _)
  case acked => exact h.acked

theorem sendChat (h : Tracked s) (hn : id ∉ s.issued) (addrKey text : Str) :
    Tracked ({ s with issued := id :: s.issued }.after (sendChat id addrKey text)) := by
  have hs : id ∉ s.statuses.map Prod.fst := fun hs => hn (h.issued id (.inr hs))
  have hp : s.pending.find? id = none := by
    by_contra hc
    exact hn (h.issued id (.inl (Option.ne_none_iff_isSome.mp hc)))
  rw [after_sendChat]
  split
  case isTrue => exact (h.issue id).record List.mem_cons_self hp hs nofun
  case isFalse => exact (h.issue id).await List.mem_cons_self hs addrKey

theorem arm (h : Tracked s) (hm : s.pending.find? id = some m) :
    Tracked { s with
      pending  := s.pending.update id ({ · with timeoutTask := true }) fun _ => rfl
      sleeping := id :: s.sleeping } := by
  have hf {id' m'} (hm' : (s.pending.update id ({ · with timeoutTask := true }) fun _ => rfl).find? id' =
      some m') : (id' = id ∧ m'.timeoutTask) ∨ s.pending.find? id' = some m' := by
    rw [Table.find?_update] at hm'
    split at hm'
    case isTrue he =>
      rw [hm] at hm'
      cases hm'
      exact .inl ⟨he, rfl⟩
    case isFalse => exact .inr hm'
  have hp : (s.pending.find? id).isSome := by rw [hm]; rfl
  constructor
  case issued =>
    rintro id' (hs | hs)
    · obtain ⟨m', hm'⟩ := Option.isSome_iff_exists.mp hs
      rcases hf hm' with ⟨rfl, -⟩ | hm'
      · exact h.issued _ (.inl hp)
      · exact h.issued id' (.inl <| by rw [hm']; rfl)
    · exact h.issued id' (.inr hs)
  case silent =>
    intro id' m' hm'
    rcases hf hm' with ⟨rfl, -⟩ | hm'
    · exact h.silent _ m hm
    · exact h.silent id' m' hm'
  case once => exact h.once
  case armed =>
    intro id' m' hm'
    rcases hf hm' with ⟨rfl, ht⟩ | hm'
    · exact .inr ⟨ht, List.mem_cons_self⟩
    · exact (h.armed id' m' hm').imp_right fun ha => ⟨ha.left, List.mem_cons_of_mem _ ha.right⟩
  case acked => exact h.acked

theorem sendEnds (h : Tracked s) {result : SendResult} (hg : s.Settled (.sendEnds id result)) :
    Tracked ({ s with sending := s.sending.erase id }.after (resumeSendChat id result)) := by
  cases result
  case ok =>
    cases hm : s.pending.find? id
    case none =>
      have he := after_resumeSendChat_gone (s := { s with sending := s.sending.erase id }) hm
      rw [he]
      exact h.ended fun m hm' => by cases hm.symm.trans hm'
    case some m =>
      have he := after_resumeSendChat_ok (s := { s with sending := s.sending.erase id }) hm
      rw [he]
      refine (h.arm hm).ended fun m' hm' => ⟨?_, List.mem_cons_self⟩
      rw [Table.find?_update, if_pos rfl, hm] at hm'
      cases hm'
      rfl
  case notOk =>
    have ⟨m, hm⟩ := Option.isSome_iff_exists.mp hg
    have hr : Tracked (s.resolve id .failed) := h.resolve hm nofun
    exact hr.ended fun m' hm' => by simp [ChatState.resolve, Table.find?_erase] at hm'
  case raises =>
    have hn := Option.isNone_iff_eq_none.mp hg
    exact h.ended fun m hm => by cases hn.symm.trans hm

theorem receive (h : Tracked s) (p : Packet) :
    Tracked ({ s with acks := (ackId? p).toList ++ s.acks }.after (dispatch p)) := by
  have ha : Tracked { s with acks := (ackId? p).toList ++ s.acks } :=
    { h with acked := fun id hd => List.mem_append_right _ (h.acked id hd) }
  rw [after_dispatch]
  cases hi : ackId? p
  case none => simpa [hi] using ha
  case some id =>
    rw [hi] at ha
    cases hm : s.pending.find? id
    case none => simpa [hm] using ha
    case some m =>
      have hd := ha.deliver hm List.mem_cons_self
      simpa [hm] using hd

theorem wakeUp (h : Tracked s) :
    Tracked ({ s with sleeping := s.sleeping.filter (· ≠ id) }.after (resumeTimeoutWatcher id)) := by
  rw [after_resumeTimeoutWatcher]
  cases hm : s.pending.find? id
  case none => exact h.wake hm
  case some m =>
    have hr : Tracked (s.resolve id .failed) := h.resolve hm nofun
    exact hr.wake (by simp [ChatState.resolve, Table.find?_erase])

theorem step {e : ChatEvent} (h : Tracked s) (hg : s.Settled e) (hs : s.step e = some s') :
    Tracked s' := by
  cases e <;>
    simp only [ChatState.step, Option.ite_none_left_eq_some, Option.ite_none_right_eq_some,
      Option.some.injEq] at hs
  case sendChat id addrKey text =>
    obtain ⟨hn, rfl⟩ := hs
    exact h.sendChat hn addrKey text
  case sendEnds id result =>
    obtain ⟨-, rfl⟩ := hs
    exact h.sendEnds hg
  case receive p =>
    subst hs
    exact h.receive p
  case wakeUp id =>
    obtain ⟨-, rfl⟩ := hs
    exact h.wakeUp

end Tracked

theorem tracked_of_run (run : machine.Run Settled s) : Tracked s := by
  refine run.invariant ?_ fun h => h.step
  rintro _ rfl
  constructor
  case issued => rintro id (h | h) <;> cases h
  case once => exact .nil
  all_goals exact nofun

end ChatState

-- An id has at most one status, it is `delivered` only after an acknowledgment of the id, and an id
-- whose `send_chat` has ended is waited for only with a watcher.
open ChatState in
theorem chat_status_resolves_once {s : ChatState} (run : machine.Run Settled s) (id : Text) :
    (s.statuses.map Prod.fst).count id ≤ 1 ∧
    ((id, .delivered) ∈ s.statuses → id ∈ s.acks) ∧
    (∀ m, s.pending.find? id = some m → id ∉ s.sending → m.timeoutTask ∧ id ∈ s.sleeping) := by
  have h := tracked_of_run run
  exact ⟨List.nodup_iff_count_le_one.mp h.once id, h.acked id,
    fun m hm hn => (h.armed id m hm).resolve_left hn⟩

namespace ChatState.Race

def messageId : Text :=
  .ofString "1"

def addrKey : Str :=
  Str.ofString "10.0.0.2:5555"

def ack : Packet :=
  .json (.obj [(.ofString "type", .str (.ofString "chat_ack")), (.ofString "message_id", .str messageId)])

end ChatState.Race

-- The acknowledgment arrives while the send still drains, and then the connection is lost.
open ChatState Race in
theorem chat_status_resolves_once_race :
    ∃ s, machine.Reachable s ∧ s.statuses = [(messageId, .failed), (messageId, .delivered)] :=
  ⟨_, Machine.Run.exec (.init rfl)
    [.sendChat messageId addrKey [], .receive ack, .sendEnds messageId .notOk] rfl, by decide +kernel⟩

-- The acknowledgment arrives while the send still drains, and the send succeeds.
open ChatState Race in
theorem chat_status_resolves_once_drained :
    ∃ s, machine.Run Settled s ∧ (s.statuses.map Prod.fst).count messageId ≤ 1 := by
  have h₀ : machine.Run Settled {} := .init rfl
  have h₁ := h₀.step (show Settled _ (.sendChat messageId addrKey []) from trivial) rfl
  have h₂ := h₁.step (show Settled _ (.receive ack) from trivial) rfl
  have h₃ := h₂.step (show Settled _ (.sendEnds messageId .ok) from trivial) rfl
  exact ⟨_, h₃, (chat_status_resolves_once h₃ messageId).left⟩
