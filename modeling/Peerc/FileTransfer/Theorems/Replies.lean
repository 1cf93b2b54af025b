import Peerc.FileTransfer.Effect
import Peerc.FileTransfer.Theorems.OneStream

open Protocol Transfer

namespace UploadState

variable {P : Primitives} {s : UploadState} {p : Packet} {u u' : Upload}

theorem find?_put_self : (s.put u).uploads.find? u.transferId = some u := by
  rw [put, Table.find?_replace, if_pos rfl]

-- The reply to an offer is acted upon: a stream is started, or the rejection is reported.
def Answered (u : Upload) (p : Packet) (s : UploadState) : Prop :=
  ∃ u', s.uploads.find? u.transferId = some u' ∧
    (p.type? = some (.ofString "file_accept") → u'.streams = u.streams + 1) ∧
    (p.type? = some (.ofString "file_reject") →
      u'.reports = u.reports ++ [⟨false, none, some "rejected"⟩])

-- `file_accept` or `file_reject` with the id of the transfer
structure RepliesTo (p : Packet) (u : Upload) : Prop where
  type : p.type? = some (.ofString "file_accept") ∨ p.type? = some (.ofString "file_reject")
  key  : p.key? "transfer_id" = some (.str u.transferId)

theorem accept_ne_reject : Text.ofString "file_accept" ≠ .ofString "file_reject" := by
  decide

theorem receive_of_registered (h : RepliesTo p u) (hu : u ∈ s.uploads.rows) (hr : u.registered) :
    Answered u p (s.receive p) := by
  have found : s.outgoing? p = some u := (outgoing?_eq h.key hu).trans (if_pos hr)
  simp only [receive, found]
  by_cases ha : p.type? = some (.ofString "file_accept")
  case pos =>
    rw [if_pos ha]
    refine ⟨u.handleAccept, find?_put_self, fun _ => rfl, fun hj => ?_⟩
    exact absurd (Option.some.inj (ha.symm.trans hj)) accept_ne_reject
  case neg =>
    have hj := h.type.resolve_left ha
    rw [if_neg ha, if_pos hj]
    exact ⟨u.handleReject, find?_put_self, fun ha' => absurd ha' ha, fun _ => rfl⟩

theorem receive_of_not_registered (h : RepliesTo p u) (hu : u ∈ s.uploads.rows) (hr : ¬u.registered) :
    s.receive p = s := by
  have found : s.outgoing? p = none := (outgoing?_eq h.key hu).trans (if_neg hr)
  simp only [receive, found]

theorem not_answered_self (h : RepliesTo p u) (hu : u ∈ s.uploads.rows) : ¬Answered u p s := by
  rintro ⟨u', hf, ha, hj⟩
  cases (Table.find?_of_mem hu).symm.trans hf
  obtain type | type := h.type
  · exact absurd (ha type) (Nat.succ_ne_self _).symm
  · have hl := congrArg List.length (hj type)
    simp at hl

end UploadState

-- Uploads and the transfers of `TransferState`, which has no tasks

def UploadStatus.toOutgoing : UploadStatus → OutgoingStatus
  | offered           => .offered
  | sending           => .sending
  | awaitingAck       => .awaitingAck
  | done              => .done
  | failed | rejected => .failed

def Upload.toOutgoing (u : Upload) : OutgoingTransfer where
  transferId := u.transferId
  addrKey    := u.addrKey
  status     := u.status.toOutgoing
  ackEvent   := u.ackEvent
  ackSuccess := u.ackSuccess
  senders    := u.streams

namespace UploadState

variable {P : Primitives} {s : UploadState} {p : Packet} {u : Upload} {t : TransferState}

-- What is in `_outgoing` under a key
def lookup (s : UploadState) : Json.Key → Option Upload
  | .str transferId => (s.uploads.find? transferId).filter (·.registered)
  | _               => none

theorem outgoing?_eq_lookup : s.outgoing? p = p.key? "transfer_id" >>= s.lookup := by
  unfold outgoing?
  cases p.key? "transfer_id"
  case none => rfl
  case some key => cases key <;> rfl

-- Both models have the same transfers in `_outgoing`.
def Mirrors (s : UploadState) (t : TransferState) : Prop :=
  ∀ key, t.outgoing.find? key = (s.lookup key).map Upload.toOutgoing

theorem Mirrors.outgoingOf? (h : Mirrors s t) :
    t.outgoingOf? p = (s.outgoing? p).map Upload.toOutgoing := by
  rw [TransferState.outgoingOf?, outgoing?_eq_lookup]
  cases p.key? "transfer_id"
  case none => rfl
  case some key => exact h key

theorem lookup_put {key : Json.Key} :
    (s.put u).lookup key =
      if key = .str u.transferId then some u |>.filter (·.registered) else s.lookup key := by
  cases key
  case str transferId =>
    simp only [lookup, put, Table.find?_replace, Json.Key.str.injEq]
    split <;> rfl
  all_goals rfl

theorem Mirrors.replace (h : Mirrors s t) (hr : u.registered) :
    Mirrors (s.put u) { t with outgoing := t.outgoing.replace u.toOutgoing } := by
  intro key
  rw [Table.find?_replace, lookup_put, h key]
  show (if key = .str u.transferId then _ else _) = _
  split
  case isTrue => rw [Option.filter_some_pos hr]; rfl
  case isFalse => rfl

theorem Mirrors.erase (h : Mirrors s t) (hr : ¬u.registered) {completions : List Completion} :
    Mirrors (s.put u) { t with outgoing := t.outgoing.erase (.str u.transferId), completions } := by
  intro key
  rw [Table.find?_erase, lookup_put, h key]
  split
  case isTrue => rw [Option.filter_some_neg (eq_false_of_ne_true hr)]; rfl
  case isFalse => rfl

-- The handlers keep it so.

theorem Mirrors.handleAccept (h : Mirrors s t) (hp : p.type? = some (.ofString "file_accept")) :
    Mirrors (s.receive p) (t.after (TransferState.handleAccept p)) := by
  rw [TransferState.after_handleAccept, h.outgoingOf?, receive]
  cases found : s.outgoing? p
  case none => exact h
  case some u =>
    simp only [hp, if_true]
    have hr := registered_of_outgoing? found
    exact h.replace (u := u.handleAccept) hr

theorem Mirrors.handleReject (h : Mirrors s t) (hp : p.type? = some (.ofString "file_reject")) :
    Mirrors (s.receive p) (t.after (TransferState.handleReject p)) := by
  have ha : ¬p.type? = some (.ofString "file_accept") := fun ha =>
    accept_ne_reject (Option.some.inj (ha.symm.trans hp))
  rw [TransferState.after_handleReject, h.outgoingOf?, receive]
  cases found : s.outgoing? p
  case none => exact h
  case some u =>
    simp only [if_neg ha, if_pos hp]
    exact h.erase Bool.false_ne_true

theorem Mirrors.handleCompleteAck (h : Mirrors s t)
    (hp : p.type? = some (.ofString "file_complete_ack")) :
    Mirrors (s.receive p) (t.after (TransferState.handleCompleteAck p)) := by
  have ha : ¬p.type? = some (.ofString "file_accept") := by
    rw [hp]
    decide
  have hj : ¬p.type? = some (.ofString "file_reject") := by
    rw [hp]
    decide
  rw [TransferState.after_handleCompleteAck, h.outgoingOf?, receive]
  cases found : s.outgoing? p
  case none => exact h
  case some u =>
    simp only [if_neg ha, if_neg hj, if_pos hp]
    have hr := registered_of_outgoing? found
    exact h.replace (u := u.handleCompleteAck _) hr

-- Messages to the receiver change nothing.
theorem receive_of_type? {type : Option Text} (hp : p.type? = type)
    (ht : type ∉ ["file_accept", "file_reject", "file_complete_ack"].map (some <| Text.ofString ·)) :
    s.receive p = s := by
  subst hp
  simp only [List.map_cons, List.map_nil, List.mem_cons, List.not_mem_nil, or_false, not_or] at ht
  rw [receive]
  split
  · rfl
  · rw [if_neg ht.left, if_neg ht.right.left, if_neg ht.right.right]

theorem Mirrors.dispatch (h : Mirrors s t) (downloadsDir : Str) (free : Option Nat) (addrKey : Str) :
    Mirrors (s.receive p) (t.after (TransferState.dispatch P downloadsDir free addrKey p)) := by
  -- The handlers of the receiver leave `_outgoing` alone.
  have other {type : Option Text} {t' : TransferState} (ho : t'.outgoing = t.outgoing)
      (hp : p.type? = type)
      (ht : type ∉ ["file_accept", "file_reject", "file_complete_ack"].map (some <| Text.ofString ·)) :
      Mirrors (s.receive p) t' := by
    rw [receive_of_type? hp ht]
    exact fun key => ho ▸ h key
  unfold TransferState.dispatch
  split
  case isTrue hp =>
    refine other ?_ hp (by decide)
    rw [TransferState.after, TransferState.run_handleOffer]
    split <;> rfl
  split
  case isTrue hp => exact h.handleAccept hp
  split
  case isTrue hp => exact h.handleReject hp
  split
  case isTrue hp =>
    refine other ?_ hp (by decide)
    rw [TransferState.after_handleChunk]
    cases t.incomingOf? p
    case none => rfl
    case some => dsimp only [Option.elim]; split <;> rfl
  split
  case isTrue hp =>
    refine other ?_ hp (by decide)
    rw [TransferState.after_handleDone]
    cases t.incomingOf? p
    case none => rfl
    case some => dsimp only [Option.elim]; split <;> rfl
  split
  case isTrue hp => exact h.handleCompleteAck hp
  case isFalse ha hj _ _ hc =>
    refine other rfl rfl ?_
    simp only [List.map_cons, List.map_nil, List.mem_cons, List.not_mem_nil, or_false, not_or]
    exact ⟨ha, hj, hc⟩

end UploadState

namespace Upload

variable {P : Primitives} {u u' : Upload} {phase : SendPhase} {i : Nat}

-- The offer has been written, and `offer_file` registers the transfer only after that.
structure Begun (P : Primitives) (u : Upload) : Prop where
  offer    : ∃ now, [.offer (u.offer P now)] <+: u.written
  offering : u.offering → ¬u.registered

theorem Begun.write (h : Begun P u) (w : Written) : Begun P (u.write w) where
  offer := by
    obtain ⟨now, hp⟩ := h.offer
    exact ⟨now, hp.trans (List.prefix_append ..)⟩
  offering := h.offering

theorem Begun.finish (h : Begun P u) {status : UploadStatus} {reports : List UploadReport} :
    Begun P ({ u with status, reports }.finish i) :=
  ⟨h.offer, fun _ => Bool.false_ne_true⟩

theorem Begun.resume (h : Begun P u) (effect : ResumeEffect P u i phase u') : Begun P u' := by
  cases effect
  case failed error => exact h.finish
  case completed success => cases success <;> exact h.finish
  case proceeds effect =>
    generalize u.unsent phase = rest at effect
    cases effect
    case chunk | done => exact ⟨(h.write _).offer, h.offering⟩
    case awaitAck => exact ⟨h.offer, h.offering⟩
    case failed | raised => exact h.finish

end Upload

namespace UploadState

variable {P : Primitives} {s s' : UploadState} {e : UploadEvent}

theorem begun_step (h : ∀ u ∈ s.uploads.rows, u.Begun P) (effect : Effect P s e s') :
    ∀ u ∈ s'.uploads.rows, u.Begun P := by
  cases effect
  case unchanged => exact h
  case offered offered =>
    subst offered
    exact forall_put h ⟨⟨_, List.prefix_rfl⟩, fun _ => Bool.false_ne_true⟩
  case offerSent found offering =>
    exact forall_put h ⟨(h _ (Table.mem_of_find? found)).offer, fun ho => (Bool.false_ne_true ho).elim⟩
  case accepted found type =>
    have hb := h _ (mem_of_outgoing? found)
    exact forall_put h ⟨hb.offer, hb.offering⟩
  case rejected found type => exact forall_put h ⟨(h _ (mem_of_outgoing? found)).offer, fun _ => Bool.false_ne_true⟩
  case acknowledged found success =>
    have hb := h _ (mem_of_outgoing? found)
    exact forall_put h ⟨hb.offer, hb.offering⟩
  case resumed found task effect => exact forall_put h ((h _ (Table.mem_of_find? found)).resume effect)

theorem begun (h : (machine P).Reachable s) : ∀ u ∈ s.uploads.rows, u.Begun P := by
  induction h
  case init h =>
    subst h
    exact nofun
  case step step hi => exact begun_step hi (step_effect step)

end UploadState

-- How a transfer comes to be in `_outgoing`, by the events of a run

-- A reply of a type to the offer of a transfer is handled.
def UploadEvent.isReply (type : String) (transferId : Text) : UploadEvent → Bool
  | .receive p => p.type? = some (.ofString type) ∧ p.key? "transfer_id" = some (.str transferId)
  | _          => false

-- The event has nothing to do with the registration of a transfer.
structure UploadEvent.Spares (e : UploadEvent) (transferId : Text) : Prop where
  sent    : ∀ ok, e ≠ .offerSent transferId ok
  accepts : ¬e.isReply "file_accept" transferId
  rejects : ¬e.isReply "file_reject" transferId

namespace Upload

variable {P : Primitives} {u u' : Upload} {e : UploadEvent} {past : List UploadEvent} {phase : SendPhase} {i : Nat}

-- `offer_file` has registered the transfer. Since then no rejection has been handled, and each acceptance that has
-- been handled has a task that has not ended.
def Standing (u : Upload) (events : List UploadEvent) : Prop :=
  ∃ before after, events = before ++ .offerSent u.transferId true :: after ∧
    (∀ e ∈ after, ¬e.isReply "file_reject" u.transferId) ∧
    u.tasks.length = after.countP (·.isReply "file_accept" u.transferId)

-- What an event other than the return of `offer_file` does to a transfer
inductive Change (e : UploadEvent) (u u' : Upload) : Prop
  | kept (registered : u'.registered = u.registered) (tasks : u'.tasks.length = u.tasks.length)
      (spared : u.registered → e.Spares u.transferId)
  | accepted (before : u.registered) (after : u'.registered) (tasks : u'.tasks.length = u.tasks.length + 1)
      (accepts : e.isReply "file_accept" u.transferId) (rejects : ¬e.isReply "file_reject" u.transferId)
  | rejected (after : ¬u'.registered) (tasks : u'.tasks.length = u.tasks.length) (before : u.registered)
      (rejects : e.isReply "file_reject" u.transferId)
  | ended (after : ¬u'.registered) (tasks : u'.tasks.length + 1 = u.tasks.length)

inductive Chronicle (past : List UploadEvent) (u : Upload) : Prop
  | pending (absent : .offerSent u.transferId true ∉ past)
      (offering : u.offering → ∀ ok, .offerSent u.transferId ok ∉ past) (registered : ¬u.registered)
      (tasks : u.tasks.length = 0)
  | sent (offering : ¬u.offering) {earlier later : List UploadEvent}
      (split : past = earlier ++ .offerSent u.transferId true :: later)
      (unique : .offerSent u.transferId true ∉ earlier ∧ .offerSent u.transferId true ∉ later)
      (tasks : u.tasks.length ≤ later.countP (·.isReply "file_accept" u.transferId))
      (registered : u.registered ↔ (∀ e ∈ later, ¬e.isReply "file_reject" u.transferId) ∧
        u.tasks.length = later.countP (·.isReply "file_accept" u.transferId))

theorem Chronicle.registered_iff (h : Chronicle past u) : u.registered ↔ u.Standing past := by
  cases h
  case pending absent _ registered _ =>
    refine ⟨fun hr => absurd hr registered, ?_⟩
    rintro ⟨before, after, rfl, -⟩
    exact absurd (List.mem_append_right _ List.mem_cons_self) absent
  case sent later split unique _ registered =>
    rw [registered]
    refine ⟨fun hr => ⟨_, _, split, hr⟩, ?_⟩
    rintro ⟨before, after, hs, hr⟩
    obtain ⟨-, -, rfl⟩ := (List.append_cons_inj_of_notMem unique.left unique.right).mp (split.symm.trans hs)
    exact hr

-- An event is added at the end. The number of tasks never exceeds that of the acceptances.
theorem Chronicle.change (h : Chronicle past u) (hi : u'.transferId = u.transferId)
    (ho : u'.offering = u.offering) (hs : ∀ ok, e ≠ .offerSent u.transferId ok) (hc : Change e u u') :
    Chronicle (past ++ [e]) u' := by
  have hn {ok} {l : List UploadEvent} (hl : .offerSent u.transferId ok ∉ l) :
      .offerSent u.transferId ok ∉ l ++ [e] := by
    rw [List.mem_append, List.mem_singleton]
    exact fun hm => hm.elim hl fun he => hs ok he.symm
  cases h
  case pending absent offering registered tasks =>
    refine .pending (hi ▸ hn absent) (fun h ok => hi ▸ hn (offering (ho ▸ h) ok)) ?_ ?_
    · cases hc
      case kept hr _ _ => rwa [hr]
      case accepted before _ _ _ _ => exact absurd before registered
      case rejected after _ _ _ => exact after
      case ended after _ => exact after
    · cases hc
      case accepted before _ _ _ _ => exact absurd before registered
      all_goals omega
  case sent offering earlier later split unique tasks registered =>
    refine @Chronicle.sent _ _ (ho ▸ offering) earlier (later ++ [e]) ?_ ?_ ?_ ?_ <;> rw [hi]
    · rw [split, List.append_assoc, List.cons_append]
    · exact ⟨unique.left, hn unique.right⟩
    · rw [List.countP_append, List.countP_singleton]
      cases hc
      case accepted accepts _ =>
        rw [if_pos accepts]
        omega
      all_goals split <;> omega
    · rw [List.countP_append, List.countP_singleton, List.forall_mem_append, List.forall_mem_singleton]
      cases hc
      case kept hr ht spared =>
        rw [hr, ht]
        constructor
        case mp =>
          intro h
          have he := spared h
          rw [if_neg he.accepts]
          exact ⟨⟨(registered.mp h).left, he.rejects⟩, (registered.mp h).right⟩
        case mpr =>
          rintro ⟨hj, hl⟩
          refine registered.mpr ⟨hj.left, ?_⟩
          split at hl <;> omega
      case accepted before after ht accepts rejects =>
        rw [if_pos accepts, ht]
        have hr := registered.mp before
        exact ⟨fun _ => ⟨⟨hr.left, rejects⟩, congrArg (· + 1) hr.right⟩, fun _ => after⟩
      case rejected after _ _ rejects => exact ⟨fun h => absurd h after, fun h => absurd rejects h.left.right⟩
      case ended after ht =>
        refine ⟨fun h => absurd h after, fun h => ?_⟩
        have := h.right
        split at this <;> omega

theorem Chronicle.offerSent (h : Chronicle past u) (offering : u.offering) (ok : Bool) :
    Chronicle (past ++ [.offerSent u.transferId ok]) { u with offering := false, registered := ok } := by
  cases h
  case sent hn _ _ _ _ _ _ => exact absurd offering hn
  case pending absent _ _ tasks =>
    cases ok
    case false =>
      refine .pending ?_ (fun h => (Bool.false_ne_true h).elim) Bool.false_ne_true tasks
      simpa using absent
    case true =>
      refine @Chronicle.sent _ _ Bool.false_ne_true past [] rfl ⟨absent, List.not_mem_nil⟩ tasks.le ?_
      exact ⟨fun _ => ⟨List.forall_mem_nil _, tasks⟩, fun _ => rfl⟩

theorem change_finish (task : u.tasks[i]? = some phase) {status : UploadStatus} {reports : List UploadReport} :
    Change e u ({ u with status, reports }.finish i) :=
  .ended Bool.false_ne_true (List.length_eraseIdx_add_one (List.getElem?_eq_some_iff.mp task).fst)

theorem ResumeEffect.change (effect : ResumeEffect P u i phase u') (task : u.tasks[i]? = some phase)
    (he : e.Spares u.transferId) :
    u'.transferId = u.transferId ∧ u'.offering = u.offering ∧ Change e u u' := by
  cases effect
  case failed error => exact ⟨rfl, rfl, change_finish task⟩
  case completed success => cases success <;> exact ⟨rfl, rfl, change_finish task⟩
  case proceeds effect =>
    generalize u.unsent phase = rest at effect
    cases effect
    case chunk | done | awaitAck => exact ⟨rfl, rfl, .kept rfl List.length_set fun _ => he⟩
    case failed | raised => exact ⟨rfl, rfl, change_finish task⟩

end Upload

namespace UploadState

variable {P : Primitives} {s s' : UploadState} {e : UploadEvent} {past : List UploadEvent} {u : Upload} {p : Packet}

theorem key_of_outgoing? (h : s.outgoing? p = some u) : p.key? "transfer_id" = some (.str u.transferId) := by
  unfold outgoing? at h
  split at h
  case h_1 hk => rw [hk, Table.key_of_find? (Option.filter_eq_some_iff.mp h).left]
  case h_2 => cases h

theorem spares_receive {id transferId : Text} (h : p.key? "transfer_id" = some (.str transferId))
    (hn : id ≠ transferId) : (UploadEvent.receive p).Spares id := by
  have hr (type : String) : ¬(UploadEvent.receive p).isReply type id := by
    simp only [UploadEvent.isReply, h, decide_eq_true_eq, Option.some.injEq, Json.Key.str.injEq]
    exact fun h => hn h.right.symm
  exact ⟨fun _ => UploadEvent.noConfusion, hr _, hr _⟩

theorem isReply_iff {type : String} (h : p.key? "transfer_id" = some (.str u.transferId)) :
    (UploadEvent.receive p).isReply type u.transferId ↔ p.type? = some (.ofString type) := by
  simp [UploadEvent.isReply, h]

theorem exists_of_isReply {type : String} {transferId : Text} (h : e.isReply type transferId) :
    ∃ p, e = .receive p ∧ p.type? = some (.ofString type) ∧ p.key? "transfer_id" = some (.str transferId) := by
  cases e
  case receive p => exact ⟨p, rfl, of_decide_eq_true h⟩
  all_goals cases h

structure Chronicles (past : List UploadEvent) (s : UploadState) : Prop where
  known : ∀ u ∈ s.uploads.rows, u.Chronicle past
  sent  : ∀ transferId ok, .offerSent transferId ok ∈ past → (s.uploads.find? transferId).isSome

theorem Chronicles.put (h : Chronicles past s) (hu : u.Chronicle (past ++ [e]))
    (he : ∀ transferId, transferId ≠ u.transferId → e.Spares transferId) : Chronicles (past ++ [e]) (s.put u) where
  known u' hm := by
    obtain rfl | ⟨hm, hn⟩ := Table.mem_replace.mp hm
    · exact hu
    · exact (h.known u' hm).change rfl rfl (he _ hn).sent (.kept rfl rfl fun _ => he _ hn)
  sent transferId ok hm := by
    rw [UploadState.put, Table.find?_replace]
    split
    case isTrue => rfl
    case isFalse hn =>
      rw [List.mem_append, List.mem_singleton] at hm
      exact h.sent transferId ok (hm.resolve_right fun hs => (he _ hn).sent ok hs.symm)

theorem Chronicles.step (h : Chronicles past s) (effect : Effect P s e s') : Chronicles (past ++ [e]) s' := by
  cases effect
  case unchanged sent ignored =>
    refine ⟨fun u hm => (h.known u hm).change rfl rfl (sent _) (.kept rfl rfl fun hr => ?_), fun id ok hm => ?_⟩
    · -- A reply to a transfer in `_outgoing` would not have been ignored.
      refine ⟨sent _, fun hi => ?_, fun hi => ?_⟩
      all_goals obtain ⟨p, he, type, key⟩ := exists_of_isReply hi
      all_goals have found := (outgoing?_eq key hm).trans (if_pos hr)
      · exact (ignored p u he found).left type
      · exact (ignored p u he found).right type
    · rw [List.mem_append, List.mem_singleton] at hm
      exact h.sent id ok (hm.resolve_right fun hs => sent id ok hs.symm)
  case offered transferId _ _ _ _ _ _ u new offered =>
    subst offered
    refine h.put (.pending ?_ (fun _ ok => ?_) Bool.false_ne_true rfl) fun id hn =>
      ⟨fun _ => UploadEvent.noConfusion, Bool.false_ne_true, Bool.false_ne_true⟩
    all_goals
      rw [List.mem_append, List.mem_singleton]
      rintro (hm | he)
      · have hs : (s.uploads.find? transferId).isSome := h.sent _ _ hm
        rw [new] at hs
        cases hs
      · cases he
  case offerSent transferId u ok found offering =>
    cases Table.key_of_find? found
    refine h.put ((h.known u (Table.mem_of_find? found)).offerSent offering ok) fun id hn => ?_
    exact ⟨fun ok' he => hn (by injection he with he; exact he.symm), Bool.false_ne_true, Bool.false_ne_true⟩
  case accepted p u found type =>
    have key := key_of_outgoing? found
    have hr := registered_of_outgoing? found
    refine h.put ((h.known u (mem_of_outgoing? found)).change rfl rfl (fun _ => UploadEvent.noConfusion) ?_)
      fun id hn => spares_receive key hn
    refine .accepted hr hr List.length_append ((isReply_iff key).mpr type) fun hj => ?_
    exact accept_ne_reject (Option.some.inj (type.symm.trans ((isReply_iff key).mp hj)))
  case rejected p u found type =>
    have key := key_of_outgoing? found
    refine h.put ((h.known u (mem_of_outgoing? found)).change rfl rfl (fun _ => UploadEvent.noConfusion) ?_)
      fun id hn => spares_receive key hn
    exact .rejected Bool.false_ne_true rfl (registered_of_outgoing? found) ((isReply_iff key).mpr type)
  case acknowledged p u type found success =>
    have key := key_of_outgoing? found
    have hr {type' : String} (hn : Text.ofString "file_complete_ack" ≠ .ofString type') :
        ¬(UploadEvent.receive p).isReply type' u.transferId := fun h =>
      hn (Option.some.inj (type.symm.trans ((isReply_iff key).mp h)))
    refine h.put ((h.known u (mem_of_outgoing? found)).change rfl rfl (fun _ => UploadEvent.noConfusion) ?_)
      fun id hn => spares_receive key hn
    exact .kept rfl rfl fun _ => ⟨fun _ => UploadEvent.noConfusion, hr (by decide), hr (by decide)⟩
  case resumed transferId u u' i turn phase found task effect =>
    have he (id) : (UploadEvent.resume transferId i turn).Spares id :=
      ⟨fun _ => UploadEvent.noConfusion, Bool.false_ne_true, Bool.false_ne_true⟩
    obtain ⟨hi, ho, hc⟩ := effect.change task (he _)
    exact h.put ((h.known u (Table.mem_of_find? found)).change hi ho (he _).sent hc) fun id _ => he id

theorem chronicles_of_exec {events : List UploadEvent} (h : (machine P).exec (fun _ _ => True) {} events = some s) :
    Chronicles events s := by
  have h₀ : Chronicles [] {} := ⟨List.forall_mem_nil _, fun _ _ hm => absurd hm List.not_mem_nil⟩
  exact Machine.exec_history (fun hi _ step => hi.step (step_effect step)) h₀ events h

end UploadState

theorem reply_answered_iff (P : Primitives) (events : List UploadEvent) (s : UploadState)
    (h : (UploadState.machine P).exec (fun _ _ => True) {} events = some s) (u : Upload)
    (hu : u ∈ s.uploads.rows) (p : Packet) (hp : UploadState.RepliesTo p u) :
    (∃ now, [.offer (u.offer P now)] <+: u.written) ∧
    (UploadState.Answered u p (s.receive p) ↔ u.Standing events) ∧
    (u.offering → s.receive p = s) := by
  have hb := UploadState.begun (.exec (.init rfl) events h) u hu
  have hs := ((UploadState.chronicles_of_exec h).known u hu).registered_iff
  refine ⟨hb.offer, ⟨fun ha => ?_, fun ha => UploadState.receive_of_registered hp hu (hs.mpr ha)⟩, fun ho => ?_⟩
  · by_contra hn
    rw [UploadState.receive_of_not_registered hp hu fun hr => hn (hs.mp hr)] at ha
    exact UploadState.not_answered_self hp hu ha
  · exact UploadState.receive_of_not_registered hp hu (hb.offering ho)

namespace UploadState

-- The offer of a small file has been written, and the peer answers it before or after `offer_file` returns.

def replies : List Packet :=
  [.json (makeFileAccept smallId ⟨0⟩), .json (makeFileReject smallId ⟨0⟩)]

theorem repliesTo_of_mem {p : Packet} {u : Upload} (hp : p ∈ replies) (hu : u.transferId = smallId) :
    RepliesTo p u := by
  refine ⟨?_, hu ▸ ?_⟩ <;> revert p <;> decide

def isWaiting (s : UploadState) : Bool :=
  s.uploads.rows.any fun u => u.transferId = smallId ∧ u.offering

def isUnanswered (s : UploadState) : Bool :=
  s.uploads.rows.any fun u => u.transferId = smallId ∧ u.registered ∧ u.status = .offered ∧ u.streams = 0

end UploadState

theorem reply_answered_after_return :
    ∃ s, (UploadState.machine .transparent).exec (fun _ _ => True) {}
        [UploadState.smallOffer, .offerSent UploadState.smallId true] = some s ∧
      ∃ u ∈ s.uploads.rows, ∀ p ∈ UploadState.replies, UploadState.Answered u p (s.receive p) := by
  have hc : ((UploadState.machine .transparent).exec (fun _ _ => True) {}
      [UploadState.smallOffer, .offerSent UploadState.smallId true]).any UploadState.isUnanswered := by
    decide +kernel
  obtain ⟨s, hs, hp⟩ := (Option.any_eq_true ..).mp hc
  obtain ⟨u, hu, hp⟩ := List.any_eq_true.mp hp
  obtain ⟨hi, hr, -⟩ := of_decide_eq_true hp
  refine ⟨s, hs, u, hu, fun p hm => ?_⟩
  have hp := UploadState.repliesTo_of_mem hm hi
  have ha := ((UploadState.chronicles_of_exec hs).known u hu).registered_iff.mp hr
  exact (reply_answered_iff .transparent _ s hs u hu p hp).right.left.mpr ha

-- The acceptance is handled in the meantime. When `offer_file` has returned, the transfer waits for a reply.
theorem reply_lost_while_offering :
    (∃ s, (UploadState.machine .transparent).Reachable s ∧ ∃ u ∈ s.uploads.rows,
      (∃ now, [.offer (u.offer .transparent now)] <+: u.written) ∧ ∀ p ∈ UploadState.replies,
        UploadState.RepliesTo p u ∧ s.receive p = s ∧ ¬UploadState.Answered u p (s.receive p)) ∧
    ((UploadState.machine .transparent).exec (fun _ _ => True) {}
      [UploadState.smallOffer, UploadState.acceptance, .offerSent UploadState.smallId true]).any
        UploadState.isUnanswered := by
  refine ⟨?_, by decide +kernel⟩
  have h₀ : (UploadState.machine .transparent).Reachable _ := .init rfl
  obtain ⟨s, hs, hp⟩ := h₀.exec_any (p := UploadState.isWaiting) [UploadState.smallOffer]
    (by decide +kernel)
  obtain ⟨u, hu, hp⟩ := List.any_eq_true.mp hp
  obtain ⟨hi, ho⟩ := of_decide_eq_true hp
  have hb := UploadState.begun hs u hu
  refine ⟨s, hs, u, hu, hb.offer, fun p hm => ?_⟩
  have hp := UploadState.repliesTo_of_mem hm hi
  have he := UploadState.receive_of_not_registered hp hu (hb.offering ho)
  exact ⟨hp, he, he.symm ▸ UploadState.not_answered_self hp hu⟩
