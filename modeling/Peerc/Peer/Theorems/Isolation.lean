import Peerc.Peer.Sessions

-- What a message on one connection does to the transfers and messages of other connections

-- The items of all connections but one are still there, as they were.
structure Sessions.Spares (addrKey : Str) (s s' : Sessions) : Prop where
  outgoing : s.files.outgoing.Keeps (·.addrKey ≠ addrKey) s'.files.outgoing
  incoming : s.files.incoming.Keeps (·.addrKey ≠ addrKey) s'.files.incoming
  pending  : s.chat.pending.Keeps (·.addrKey ≠ addrKey) s'.chat.pending

-- The id of an acknowledgment names no message to another connection.
def ChatState.Addressed (s : ChatState) (addrKey : Str) (p : Packet) : Prop :=
  ∀ m, (ackId? p).bind s.pending.find? = some m → m.addrKey = addrKey

namespace TransferState

open Transfer

variable {P : Primitives} {s : TransferState} {p : Packet} {addrKey downloadsDir : Str}
  {free : Option Nat}

-- The id of a message names no transfer of another connection, or the message leaves the transfer as it
-- is: a chunk that cannot be read, and an acknowledgment that repeats an earlier one.
def Addressed (s : TransferState) (addrKey : Str) (p : Packet) : Prop :=
  if p.type? = some (.ofString "file_offer") then True
  else if p.type? = some (.ofString "file_accept") then
    ∀ t, s.outgoingOf? p = some t → t.addrKey = addrKey
  else if p.type? = some (.ofString "file_reject") then
    ∀ t, s.outgoingOf? p = some t → t.addrKey = addrKey
  else if p.type? = some (.ofString "file_data") then
    ∀ t, s.incomingOf? p = some t → t.addrKey = addrKey ∨ ¬Readable t p
  else if p.type? = some (.ofString "file_done") then
    ∀ t, s.incomingOf? p = some t → t.addrKey = addrKey
  else if p.type? = some (.ofString "file_complete_ack") then
    ∀ t, s.outgoingOf? p = some t → t.addrKey = addrKey ∨
      t.ackEvent ∧ t.ackSuccess = ((p.get? "success").getD .null).truthy
  else True

-- The same for the transfers alone
def Spares (addrKey : Str) (s s' : TransferState) : Prop :=
  s.outgoing.Keeps (·.addrKey ≠ addrKey) s'.outgoing ∧
    s.incoming.Keeps (·.addrKey ≠ addrKey) s'.incoming

theorem Spares.refl : Spares addrKey s s :=
  ⟨.refl, .refl⟩

section Changed

variable {s' : TransferState}

theorem spares_replace_outgoing {t t' : OutgoingTransfer} (ht : t ∈ s.outgoing.rows)
    (ho : s'.outgoing = s.outgoing.replace t') (hk : t'.key = t.key) (hi : s'.incoming = s.incoming) :
    Spares addrKey s s' ↔ t.addrKey = addrKey ∨ t = t' := by
  rw [Spares, ho, hi, Table.keeps_replace_of_mem ht hk, and_iff_left .refl]
  exact or_iff_not_imp_left.symm

theorem spares_erase_outgoing {t : OutgoingTransfer} (ht : t ∈ s.outgoing.rows)
    (ho : s'.outgoing = s.outgoing.erase t.key) (hi : s'.incoming = s.incoming) :
    Spares addrKey s s' ↔ t.addrKey = addrKey := by
  rw [Spares, ho, hi, Table.keeps_erase_of_mem ht, and_iff_left .refl, not_not]

theorem spares_replace_incoming {t t' : IncomingTransfer} (ht : t ∈ s.incoming.rows)
    (ho : s'.outgoing = s.outgoing) (hi : s'.incoming = s.incoming.replace t')
    (hk : t'.transferId = t.transferId) : Spares addrKey s s' ↔ t.addrKey = addrKey ∨ t = t' := by
  rw [Spares, ho, hi, Table.keeps_replace_of_mem ht hk, and_iff_right .refl]
  exact or_iff_not_imp_left.symm

theorem spares_erase_incoming {t : IncomingTransfer} (ht : t ∈ s.incoming.rows)
    (ho : s'.outgoing = s.outgoing) (hi : s'.incoming = s.incoming.erase t.transferId) :
    Spares addrKey s s' ↔ t.addrKey = addrKey := by
  rw [Spares, ho, hi, Table.keeps_erase_of_mem ht, and_iff_right .refl, not_not]

end Changed

theorem spares_handleAccept : Spares addrKey s (s.after (handleAccept p)) ↔
    ∀ t, s.outgoingOf? p = some t → t.addrKey = addrKey := by
  rw [after_handleAccept]
  cases ht : s.outgoingOf? p
  case none => exact iff_of_true .refl (by rintro _ ⟨⟩)
  case some t =>
    simp only [Option.some.injEq, forall_eq']
    refine Iff.trans (spares_replace_outgoing (mem_of_outgoingOf? ht) rfl rfl rfl) ?_
    -- Another task sends the file.
    exact or_iff_left fun h => (Nat.lt_succ_self _).ne (congrArg OutgoingTransfer.senders h)

theorem spares_handleReject : Spares addrKey s (s.after (handleReject p)) ↔
    ∀ t, s.outgoingOf? p = some t → t.addrKey = addrKey := by
  rw [after_handleReject]
  cases ht : s.outgoingOf? p
  case none => exact iff_of_true .refl (by rintro _ ⟨⟩)
  case some t =>
    simp only [Option.some.injEq, forall_eq']
    exact spares_erase_outgoing (mem_of_outgoingOf? ht) rfl rfl

theorem spares_handleCompleteAck : Spares addrKey s (s.after (handleCompleteAck p)) ↔
    ∀ t, s.outgoingOf? p = some t → t.addrKey = addrKey ∨
      t.ackEvent ∧ t.ackSuccess = ((p.get? "success").getD .null).truthy := by
  rw [after_handleCompleteAck]
  cases ht : s.outgoingOf? p
  case none => exact iff_of_true .refl (by rintro _ ⟨⟩)
  case some t =>
    simp only [Option.some.injEq, forall_eq']
    refine Iff.trans (spares_replace_outgoing (mem_of_outgoingOf? ht) rfl rfl rfl) (or_congr_right ?_)
    constructor
    case mp => exact fun h => ⟨congrArg OutgoingTransfer.ackEvent h, congrArg OutgoingTransfer.ackSuccess h⟩
    case mpr =>
      rintro ⟨he, hs⟩
      rw [← he, ← hs]

theorem spares_handleChunk : Spares addrKey s (s.after (handleChunk p)) ↔
    ∀ t, s.incomingOf? p = some t → t.addrKey = addrKey ∨ ¬Readable t p := by
  rw [after_handleChunk]
  cases ht : s.incomingOf? p
  case none => exact iff_of_true .refl (by rintro _ ⟨⟩)
  case some t =>
    have hm := mem_of_incomingOf? ht
    simp only [Option.some.injEq, forall_eq', Option.elim]
    rcases checkChunk_cases t p with ⟨hr, verdict, hv⟩ | ⟨hr, e, he, _⟩
    case inr =>
      rw [he]
      exact iff_of_true .refl (.inr hr)
    case inl =>
      rw [hv, or_iff_left (not_not.mpr hr)]
      cases verdict
      case abort => exact spares_erase_incoming hm rfl rfl
      case write =>
        refine Iff.trans (spares_replace_incoming hm rfl rfl rfl) ?_
        exact or_iff_left fun h =>
          (Nat.lt_succ_self _).ne (congrArg IncomingTransfer.expectedChunkIndex h)

theorem spares_handleDone : Spares addrKey s (s.after (handleDone P p)) ↔
    ∀ t, s.incomingOf? p = some t → t.addrKey = addrKey := by
  rw [after_handleDone]
  cases ht : s.incomingOf? p
  case none => exact iff_of_true .refl (by rintro _ ⟨⟩)
  case some t =>
    have hm := mem_of_incomingOf? ht
    simp only [Option.some.injEq, forall_eq', Option.elim]
    split
    · exact spares_erase_incoming hm rfl rfl
    · exact spares_erase_incoming hm rfl rfl

theorem spares_handleOffer :
    Spares addrKey s (s.after (handleOffer downloadsDir free addrKey p)) := by
  rw [after, run_handleOffer]
  split <;> exact .refl

theorem spares_resumeDone {t : IncomingTransfer} {success : Bool} :
    Spares addrKey s (s.after (resumeDone t success)) := by
  cases success
  case false =>
    rw [after, run_resumeDone_mismatch]
    exact .refl
  case true =>
    rw [after, run_resumeDone_success]
    split <;> exact .refl

theorem spares_dispatch :
    Spares addrKey s (s.after (dispatch P downloadsDir free addrKey p)) ↔ s.Addressed addrKey p := by
  unfold dispatch Addressed
  repeat' split
  · exact iff_of_true spares_handleOffer trivial
  · exact spares_handleAccept
  · exact spares_handleReject
  · exact spares_handleChunk
  · exact spares_handleDone
  · exact spares_handleCompleteAck
  · exact iff_of_true .refl trivial

-- The accepted offer has an id under which no transfer of another connection is registered.
theorem spares_resumeOffer {offer : Offer} :
    Spares offer.addrKey s (s.after (resumeOffer offer true)) ↔
      s.fs.entry (getPartPath offer.destPath) = some .directory ∨
        ∀ key, offer.transferId.key? = some key → ∀ t, s.incoming.find? key = some t →
          t.addrKey = offer.addrKey := by
  rw [after, run_resumeOffer_accept]
  split
  case h_1 hn => exact iff_of_true .refl (.inl (FileSystem.openWrite_remove_eq_none.mp hn))
  case h_2 fileHandle fs hw =>
    have hd : s.fs.entry (getPartPath offer.destPath) ≠ some .directory :=
      fun hd => by cases (FileSystem.openWrite_remove_eq_none.mpr hd).symm.trans hw
    rw [or_iff_right hd]
    cases hk : offer.transferId.key?
    case none =>
      obtain ⟨e, he, _⟩ := Json.hash_of_none hk
      rw [he]
      exact iff_of_true .refl (by rintro _ ⟨⟩)
    case some key =>
      rw [Json.hash_of_key? hk]
      simp only [Option.some.injEq, forall_eq']
      refine (and_iff_right Table.Keeps.refl).trans (Table.keeps_replace.trans ?_)
      refine forall₂_congr fun t ht => or_iff_not_imp_left.symm.trans ?_
      exact or_iff_left_of_imp (congrArg IncomingTransfer.addrKey)

end TransferState

theorem ChatState.keeps_dispatch {s : ChatState} {p : Packet} {addrKey : Str} :
    s.pending.Keeps (·.addrKey ≠ addrKey) (s.after (dispatch p)).pending ↔ s.Addressed addrKey p := by
  rw [after_dispatch, Addressed]
  cases hm : (ackId? p).bind s.pending.find?
  case none => exact iff_of_true .refl (by rintro _ ⟨⟩)
  case some m =>
    have ⟨_, _, hf⟩ := Option.bind_eq_some_iff.mp hm
    simp only [Option.some.injEq, forall_eq']
    exact (Table.keeps_erase_of_mem (Table.mem_of_find? hf)).trans not_not

-- When the part begins, the ids that it uses are those of its own connection.
def HandlerPart.Addressed (s : Sessions) : HandlerPart → Prop
  | arrived addrKey _ p   => s.chat.Addressed addrKey p ∧ s.files.Addressed addrKey p
  | decided offer true    =>
    s.files.fs.entry (Transfer.getPartPath offer.destPath) = some .directory ∨
      ∀ key, offer.transferId.key? = some key → ∀ t, s.files.incoming.find? key = some t →
        t.addrKey = offer.addrKey
  | decided _ false | abortSent .. | ackSent .. => True

theorem connections_isolated (P : Primitives) (downloadsDir : Str) (s : Sessions) (part : HandlerPart) :
    s.Spares part.addrKey (part.exec P downloadsDir s) ↔ part.Addressed s := by
  have files (s' : TransferState) {addrKey : Str} :
      s.Spares addrKey { s with files := s' } ↔ s.files.Spares addrKey s' :=
    ⟨fun h => ⟨h.outgoing, h.incoming⟩, fun h => ⟨h.left, h.right, .refl⟩⟩
  cases part
  case arrived addrKey free p =>
    rw [HandlerPart.Addressed, ← ChatState.keeps_dispatch, ← TransferState.spares_dispatch]
    exact ⟨fun h => ⟨h.pending, h.outgoing, h.incoming⟩, fun ⟨hp, ho, hi⟩ => ⟨ho, hi, hp⟩⟩
  case decided offer accept =>
    refine (files _).trans ?_
    cases accept
    case false => exact iff_of_true .refl trivial
    case true => exact TransferState.spares_resumeOffer
  case abortSent => exact (files _).trans (iff_of_true .refl trivial)
  case ackSent => exact (files _).trans (iff_of_true TransferState.spares_resumeDone trivial)

-- A file is offered on one connection, and rejected on another one.
theorem connections_isolated_rejected :
    ∃ files part, (TransferState.machine .transparent []).Reachable files ∧
      ¬Sessions.Spares (HandlerPart.addrKey part) { files } (part.exec .transparent [] { files }) := by
  let offered : OutgoingTransfer := { transferId := .ofString "1", addrKey := .ofString "10.0.0.2:5555" }
  let reject : Packet := .json <| .obj [
    (.ofString "type", .str (.ofString "file_reject")),
    (.ofString "transfer_id", .str (.ofString "1"))
  ]
  refine ⟨{ fs := .empty, outgoing := Table.empty.replace offered },
    .arrived (.ofString "10.0.0.3:6666") none reject, ?_, fun h => ?_⟩
  · exact .step (e := .offerFile (.ofString "1") (.ofString "10.0.0.2:5555")) (.init ⟨.empty, rfl⟩) trivial rfl
  · have hm := h.outgoing offered List.mem_cons_self (by decide)
    exact (by decide +kernel : offered ∉ _) hm
