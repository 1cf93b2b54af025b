import Peerc.FileTransfer.Basic
import Peerc.Transfer.Effect

-- What each handler does, by what it finds

namespace TransferState

open Transfer

variable {P : Primitives} {s s' : TransferState} {p : Packet} {t : IncomingTransfer} {offer : Offer}

-- The transfers that the id of a message names

def outgoingOf? (s : TransferState) (p : Packet) : Option OutgoingTransfer :=
  p.key? "transfer_id" >>= s.outgoing.find?

def incomingOf? (s : TransferState) (p : Packet) : Option IncomingTransfer :=
  p.key? "transfer_id" >>= s.incoming.find?

theorem mem_of_incomingOf? (h : s.incomingOf? p = some t) : t ∈ s.incoming.rows := by
  have ⟨_, _, ht⟩ := Option.bind_eq_some_iff.mp h
  exact Table.mem_of_find? ht

theorem mem_of_outgoingOf? {t : OutgoingTransfer} (h : s.outgoingOf? p = some t) :
    t ∈ s.outgoing.rows := by
  have ⟨_, _, ht⟩ := Option.bind_eq_some_iff.mp h
  exact Table.mem_of_find? ht

-- The states in which handlers leave the session

def accepted (s : TransferState) (t : OutgoingTransfer) : TransferState :=
  { s with outgoing := s.outgoing.replace { t with status := .sending, senders := t.senders + 1 } }

-- A transfer is reported as failed.
def failed (s : TransferState) (transfer : OutgoingTransfer ⊕ IncomingTransfer) (error : String) :
    TransferState :=
  { s with
    completions := { transfer, success := false, error := some error, content := none } :: s.completions }

def rejected (s : TransferState) (t : OutgoingTransfer) : TransferState :=
  { s.failed (.inl t) "rejected" with outgoing := s.outgoing.erase t.key }

def acknowledged (s : TransferState) (t : OutgoingTransfer) (success : Bool) : TransferState :=
  { s with outgoing := s.outgoing.replace { t with ackSuccess := success, ackEvent := true } }

def aborted (s : TransferState) (t : IncomingTransfer) (reason : String) : TransferState :=
  { s with
    incoming := s.incoming.erase t.transferId
    fs       := (s.fs.remove t.partPath).remove t.destPath
    aborting := (t, reason) :: s.aborting }

def written (s : TransferState) (t : IncomingTransfer) (data : Bytes) : TransferState :=
  { s with
    fs       := s.fs.append t.fileHandle data
    incoming := s.incoming.replace { t with
      bytesReceived      := t.bytesReceived + data.length
      expectedChunkIndex := t.expectedChunkIndex + 1
      accepted           := t.accepted ++ data } }

-- What `_handle_done` finds out about a transfer
def Verifies (t : IncomingTransfer) (digest : Str) : Prop :=
  t.expectedChecksum.map (·.val) = some digest ∧ (t.bytesReceived : Int) = t.size

instance {digest : Str} : Decidable (Verifies t digest) :=
  inferInstanceAs (Decidable (_ ∧ _))

def popped (s : TransferState) (t : IncomingTransfer) : TransferState :=
  { s with incoming := s.incoming.erase t.transferId }

def checked (s : TransferState) (t : IncomingTransfer) (digest : Str) : TransferState :=
  { s.popped t with verified := (t, decide (Verifies t digest)) :: s.verified }

def discarded (s : TransferState) (t : IncomingTransfer) : TransferState :=
  { s with fs := s.fs.remove t.partPath }.failed (.inr t) "checksum_mismatch"

-- A transfer is reported as complete.
def finalized (s : TransferState) (t : IncomingTransfer) (fs : FileSystem Str) : TransferState :=
  { s with
    fs
    completions :=
      { transfer := .inr t, success := true, filepath := some t.destPath,
        content := fs.read? t.destPath } :: s.completions }

theorem run_key {α : Type} {f : Json.Key → TransferM α} {name : String} :
    (liftM (p.key name) >>= f).run s =
      match p.key name with
      | .ok key  => (f key).run s
      | .error e => .error e s := by
  rw [EStateM.run_bind]
  cases p.key name <;> rfl

theorem run_findOutgoing :
    (findOutgoing p).run s =
      match p.key "transfer_id" with
      | .ok key  => .ok (s.outgoing.find? key) s
      | .error e => .error e s := by
  rw [findOutgoing, run_key]
  cases p.key "transfer_id" <;> rfl

-- The three handlers of the sender look the transfer up in the same way.
theorem after_findOutgoing {f : Option OutgoingTransfer → TransferM Unit}
    (hn : (f none).run s = .ok () s) :
    s.after (findOutgoing p >>= f) = (s.outgoingOf? p).elim s fun t => s.after (f (some t)) := by
  rw [after, EStateM.run_bind, run_findOutgoing, outgoingOf?]
  cases hk : p.key? "transfer_id"
  case none =>
    have ⟨e, he, _⟩ := Packet.key_of_none hk
    rw [he]
    rfl
  case some key =>
    simp only [Packet.key_of_key? hk, Option.bind_eq_bind, Option.bind_some]
    cases s.outgoing.find? key
    case none => exact congrArg EStateM.Result.state hn
    case some t => rfl

theorem after_handleAccept : s.after (handleAccept p) = (s.outgoingOf? p).elim s s.accepted :=
  after_findOutgoing rfl

theorem after_handleReject : s.after (handleReject p) = (s.outgoingOf? p).elim s s.rejected :=
  after_findOutgoing rfl

theorem after_handleCompleteAck :
    s.after (handleCompleteAck p) =
      (s.outgoingOf? p).elim s (s.acknowledged · ((p.get? "success").getD .null).truthy) :=
  after_findOutgoing rfl

-- What is known of an offer that the user is asked about
theorem considerOffer_eq_some {downloadsDir addrKey : Str} {free : Option Nat} {fs : FileSystem Str}
    (h : considerOffer downloadsDir free addrKey fs p = .ok (some offer)) :
    offer.addrKey = addrKey ∧ offer.offeredAt = fs.fresh ∧
      p.get? "transfer_id" = some offer.transferId := by
  unfold considerOffer at h
  have ⟨transferId, ht, h⟩ := Except.bind_eq_ok.mp h
  have ⟨filename, _, h⟩ := Except.bind_eq_ok.mp h
  have ⟨size, _, h⟩ := Except.bind_eq_ok.mp h
  have ⟨checksum, _, h⟩ := Except.bind_eq_ok.mp h
  have ⟨size, _, h⟩ := Except.bind_eq_ok.mp h
  split at h
  · cases h
  split at h
  · cases h
  have ⟨filename, _, h⟩ := Except.bind_eq_ok.mp h
  split at h
  · cases h
    exact ⟨rfl, rfl, Packet.get?_of_item ht⟩
  · split at h <;> cases h

theorem run_handleOffer (downloadsDir : Str) (free : Option Nat) (addrKey : Str) :
    (handleOffer downloadsDir free addrKey p).run s =
      match considerOffer downloadsDir free addrKey s.fs p with
      | .error e         => .error e s
      | .ok none         => .ok () s
      | .ok (some offer) => .ok () { s with offers := s.offers ++ [offer] } := by
  simp only [handleOffer, EStateM.run_bind, EStateM.run_get]
  cases considerOffer downloadsDir free addrKey s.fs p
  case error => rfl
  case ok offer? => cases offer? <;> rfl

-- The fields that `_handle_chunk` uses are there, and have types that it can use.
def Readable (t : IncomingTransfer) (p : Packet) : Prop :=
  ∃ sequence offset, p.get? "sequence" = some sequence ∧ p.get? "offset" = some offset ∧
    (sequence.equalsInt t.expectedChunkIndex ∧ offset.equalsInt t.bytesReceived →
      match p.data? with
      | some (.bytes _) => True
      | some (.json v)  => ∃ n, v.len? = some n ∧ t.bytesReceived + n > t.size
      | none            => False)

theorem checkChunk_cases (t : IncomingTransfer) (p : Packet) :
    (Readable t p ∧ ∃ verdict, checkChunk t p = .ok verdict) ∨
      (¬Readable t p ∧ ∃ e, checkChunk t p = .error e ∧ e.IsMisuse) := by
  unfold checkChunk Readable
  cases hs : p.get? "sequence"
  case none =>
    obtain ⟨e, he, hm⟩ := Packet.item_of_none hs
    exact .inr ⟨by rintro ⟨_, _, ⟨⟩, _⟩, e, by rw [he]; rfl, hm⟩
  case some sequence =>
    rw [Packet.item_of_get? hs]
    cases ho : p.get? "offset"
    case none =>
      obtain ⟨e, he, hm⟩ := Packet.item_of_none ho
      exact .inr ⟨by rintro ⟨_, _, _, ⟨⟩, _⟩, e, by rw [he]; rfl, hm⟩
    case some offset =>
      rw [Packet.item_of_get? ho]
      simp only [Option.some.injEq, existsAndEq, true_and, bind, Except.bind]
      by_cases hn : ¬sequence.equalsInt t.expectedChunkIndex ∨ ¬offset.equalsInt t.bytesReceived
      case pos =>
        rw [if_pos hn]
        exact .inl ⟨fun h => (hn.elim (· h.left) (· h.right)).elim, _, rfl⟩
      case neg =>
        rw [if_neg hn]
        have hn := (not_or.mp hn).imp not_not.mp not_not.mp
        unfold Packet.data
        cases p.data?
        case none => exact .inr ⟨fun h => h hn, _, rfl, trivial⟩
        case some data =>
          cases data
          case bytes data =>
            refine .inl ⟨fun _ => trivial, ?_⟩
            simp only [pure, Except.pure, Payload.len]
            split <;> exact ⟨_, rfl⟩
          case json v =>
            simp only [pure, Except.pure, Payload.len]
            cases v.len?
            case none => exact .inr ⟨fun h => (by obtain ⟨_, ⟨⟩, _⟩ := h hn), _, rfl, trivial⟩
            case some n =>
              simp only [Option.some.injEq, existsAndEq, true_and]
              by_cases hx : t.bytesReceived + n > t.size
              case pos => exact .inl ⟨fun _ => hx, _, if_pos hx⟩
              case neg => exact .inr ⟨fun h => hx (h hn), _, if_neg hx, trivial⟩

theorem run_handleChunk :
    (handleChunk p).run s =
      match p.key "transfer_id" with
      | .error e => .error e s
      | .ok key  =>
        match s.incoming.find? key with
        | none   => .ok () s
        | some t =>
          match checkChunk t p with
          | .error e           => .error e s
          | .ok (.abort reason) => .ok () (s.aborted t reason)
          | .ok (.write data)   => .ok () (s.written t data) := by
  rw [handleChunk, run_key]
  cases p.key "transfer_id"
  case error => rfl
  case ok key =>
    simp only [EStateM.run_bind, EStateM.run_get]
    cases s.incoming.find? key
    case none => rfl
    case some t =>
      simp only [EStateM.run_bind]
      cases checkChunk t p
      case error => rfl
      case ok verdict =>
        cases verdict
        case abort reason =>
          simp only [EStateM.run_liftM_ok, abortIncoming, EStateM.run_modify, cleanupPartFile_eq]
          rfl
        case write data => rfl

theorem run_handleDone_empty (he : s.incoming.rows = []) :
    (handleDone P p).run s =
      match p.item "transfer_id" with
      | .error e => .error e s
      | .ok _    => .ok () s := by
  simp only [handleDone, EStateM.run_bind]
  cases p.item "transfer_id"
  case error => rfl
  case ok =>
    simp only [EStateM.run_liftM_ok, EStateM.run_get, he]
    rfl

theorem run_handleDone (he : s.incoming.rows ≠ []) :
    (handleDone P p).run s =
      match p.key "transfer_id" with
      | .error e => .error e s
      | .ok key  =>
        match s.incoming.find? key with
        | none   => .ok () s
        | some t =>
          match sha256File P s.fs t.partPath with
          | .error _   => .error (.osError [.exc "OSError"]) (s.popped t)
          | .ok digest => .ok () (s.checked t digest) := by
  have he : s.incoming.rows.isEmpty = false := List.isEmpty_eq_false_iff.mpr he
  simp only [handleDone, EStateM.run_bind, Packet.key]
  cases p.item "transfer_id"
  case error => rfl
  case ok v =>
    simp only [EStateM.run_liftM_ok, EStateM.run_get, he, Bool.false_eq_true, if_false, EStateM.run_bind]
    change _ = match v.hash with | .error e => _ | .ok key => _
    cases v.hash
    case error => rfl
    case ok key =>
      simp only [EStateM.run_liftM_ok]
      cases ht : s.incoming.find? key
      case none => rfl
      case some t =>
        have hk := Table.key_of_find? ht
        simp only [EStateM.run_bind, EStateM.run_modify, EStateM.run_get, ← hk]
        cases sha256File P s.fs t.partPath
        case error => rfl
        case ok digest => rfl

theorem after_handleChunk :
    s.after (handleChunk p) = (s.incomingOf? p).elim s fun t =>
      match checkChunk t p with
      | .error _            => s
      | .ok (.abort reason) => s.aborted t reason
      | .ok (.write data)   => s.written t data := by
  rw [after, run_handleChunk, incomingOf?]
  cases hk : p.key? "transfer_id"
  case none =>
    have ⟨e, he, _⟩ := Packet.key_of_none hk
    rw [he]
    rfl
  case some key =>
    simp only [Packet.key_of_key? hk, Option.bind_eq_bind, Option.bind_some]
    cases s.incoming.find? key
    case none => rfl
    case some t =>
      simp only [Option.elim]
      split <;> rfl

theorem after_handleDone :
    s.after (handleDone P p) = (s.incomingOf? p).elim s fun t =>
      match sha256File P s.fs t.partPath with
      | .error _   => s.popped t
      | .ok digest => s.checked t digest := by
  rw [after, incomingOf?]
  by_cases he : s.incoming.rows = []
  case pos =>
    have hn (key : Json.Key) : s.incoming.find? key = none := by rw [Table.find?, he]; rfl
    rw [run_handleDone_empty he]
    cases p.key? "transfer_id" <;> cases p.item "transfer_id" <;>
      simp only [Option.bind_eq_bind, Option.bind_none, Option.bind_some, hn] <;> rfl
  case neg =>
    rw [run_handleDone he]
    cases hk : p.key? "transfer_id"
    case none =>
      obtain ⟨e, he, _⟩ := Packet.key_of_none hk
      rw [he]
      rfl
    case some key =>
      simp only [Packet.key_of_key? hk, Option.bind_eq_bind, Option.bind_some]
      cases s.incoming.find? key
      case none => rfl
      case some t =>
        simp only [Option.elim]
        split <;> rfl

theorem run_resumeOffer_accept :
    (resumeOffer offer true).run s =
      match (s.fs.remove (getPartPath offer.destPath)).openWrite (getPartPath offer.destPath) with
      | none => .error (.osError [.exc "IsADirectoryError"])
          { s with fs := s.fs.remove (getPartPath offer.destPath) }
      | some (fileHandle, fs) =>
        match offer.transferId.hash with
        | .error e => .error e { s with fs }
        | .ok key  => .ok () { s with fs, incoming := s.incoming.replace (offer.transfer key fileHandle) } := by
  simp only [resumeOffer, not_true_eq_false, if_false, EStateM.run_bind, EStateM.run_modify,
    EStateM.run_get, cleanupPartFile_eq]
  cases (s.fs.remove (getPartPath offer.destPath)).openWrite (getPartPath offer.destPath)
  case none => rfl
  case some r =>
    simp only [EStateM.run_bind, EStateM.run_modify]
    cases offer.transferId.hash <;> rfl

theorem run_resumeDone_mismatch : (resumeDone t false).run s = .ok () (s.discarded t) := by
  simp only [resumeDone, Bool.false_eq_true, not_false_eq_true, if_true, EStateM.run_bind,
    EStateM.run_modify, cleanupPartFile_eq, notifyComplete]
  rfl

theorem run_resumeDone_success :
    (resumeDone t true).run s =
      match finalizePartFile s.fs t.partPath t.destPath with
      | .error _ => .error (.osError [.exc "OSError"]) s
      | .ok fs   => .ok () (s.finalized t fs) := by
  simp only [resumeDone, not_true_eq_false, if_false, EStateM.run_bind, EStateM.run_get]
  cases finalizePartFile s.fs t.partPath t.destPath <;> rfl

-- Every step of the session, by what it does to files and incoming transfers
inductive Effect (P : Primitives) (s : TransferState) : TransferEvent → TransferState → Prop
  | quiet {e : TransferEvent} {s' : TransferState} (fs : s'.fs = s.fs) (incoming : s'.incoming = s.incoming)
      (verified : s'.verified = s.verified)
      (offers : ∀ o ∈ s'.offers, o ∈ s.offers ∨ o.offeredAt = s.fs.fresh)
      (completions : ∀ c ∈ s'.completions, c ∈ s.completions ∨ ¬c.success) : Effect P s e s'
  | written {addrKey : Str} {free : Option Nat} {p : Packet} {t : IncomingTransfer} {data : Bytes}
      (ht : s.incomingOf? p = some t) : Effect P s (.receive addrKey free p) (s.written t data)
  | aborted {addrKey : Str} {free : Option Nat} {p : Packet} {t : IncomingTransfer} {reason : String}
      (ht : s.incomingOf? p = some t) : Effect P s (.receive addrKey free p) (s.aborted t reason)
  | popped {addrKey : Str} {free : Option Nat} {p : Packet} {t : IncomingTransfer}
      (ht : s.incomingOf? p = some t) : Effect P s (.receive addrKey free p) (s.popped t)
  | checked {addrKey : Str} {free : Option Nat} {p : Packet} {t : IncomingTransfer} {content : Bytes}
      (ht : s.incomingOf? p = some t) (hc : s.fs.read? t.partPath = some content) :
    Effect P s (.receive addrKey free p) (s.checked t (P.sha256 content).hex)
  -- The staging file is opened, but the transfer not registered.
  | orphaned {i : Nat} {offer : Offer} {fileHandle : Nat} {fs : FileSystem Str}
      (ho : s.offers[i]? = some offer)
      (hw : (s.fs.remove (getPartPath offer.destPath)).openWrite (getPartPath offer.destPath) =
        some (fileHandle, fs)) :
    Effect P s (.decide i true) { s with offers := s.offers.eraseIdx i, fs }
  | registered {i : Nat} {offer : Offer} {key : Json.Key} {fileHandle : Nat} {fs : FileSystem Str}
      (ho : s.offers[i]? = some offer)
      (hw : (s.fs.remove (getPartPath offer.destPath)).openWrite (getPartPath offer.destPath) =
        some (fileHandle, fs)) :
    Effect P s (.decide i true) { s with
      offers   := s.offers.eraseIdx i
      fs
      incoming := s.incoming.replace (offer.transfer key fileHandle) }
  | lost {i : Nat} {t : IncomingTransfer} (ht : s.verified[i]? = some (t, true)) :
    Effect P s (.ackSent i) { s with verified := s.verified.eraseIdx i }
  | discarded {i : Nat} {t : IncomingTransfer} (ht : s.verified[i]? = some (t, false)) :
    Effect P s (.ackSent i) ({ s with verified := s.verified.eraseIdx i }.discarded t)
  | finalized {i : Nat} {t : IncomingTransfer} {fs : FileSystem Str}
      (ht : s.verified[i]? = some (t, true)) (hf : s.fs.replace t.partPath t.destPath = some fs) :
    Effect P s (.ackSent i) ({ s with verified := s.verified.eraseIdx i }.finalized t fs)

namespace Effect

variable {addrKey : Str} {free : Option Nat} {e : TransferEvent}

theorem refl : Effect P s e s :=
  .quiet rfl rfl rfl (fun _ => .inl) fun _ => .inl

theorem handleChunk : Effect P s (.receive addrKey free p) (s.after (handleChunk p)) := by
  rw [after_handleChunk]
  cases ht : s.incomingOf? p
  case none => exact .refl
  case some t =>
    change Effect P s _ (match checkChunk t p with | .error _ => _ | .ok (.abort _) => _ | .ok (.write _) => _)
    split
    case h_1 => exact .refl
    case h_2 => exact .aborted ht
    case h_3 => exact .written ht

theorem handleDone : Effect P s (.receive addrKey free p) (s.after (handleDone P p)) := by
  rw [after_handleDone]
  cases ht : s.incomingOf? p
  case none => exact .refl
  case some t =>
    change Effect P s _ (match sha256File P s.fs t.partPath with | .error _ => _ | .ok _ => _)
    split
    case h_1 => exact .popped ht
    case h_2 digest hd =>
      have ⟨content, hc, he⟩ := sha256File_eq_ok hd
      exact he ▸ .checked ht hc

theorem handleOffer {downloadsDir : Str} :
    Effect P s e (s.after (handleOffer downloadsDir free addrKey p)) := by
  rw [after, run_handleOffer]
  split
  case h_3 offer ho =>
    have ⟨_, ha, _⟩ := considerOffer_eq_some ho
    refine .quiet rfl rfl rfl (fun o hm => ?_) fun _ => .inl
    rcases List.mem_append.mp hm with hm | hm
    · exact .inl hm
    · cases List.mem_singleton.mp hm
      exact .inr ha
  all_goals exact .refl

theorem dispatch {downloadsDir : Str} :
    Effect P s (.receive addrKey free p) (s.after (dispatch P downloadsDir free addrKey p)) := by
  unfold TransferState.dispatch
  repeat' split
  · exact handleOffer
  · rw [after_handleAccept]
    cases s.outgoingOf? p
    case none => exact .refl
    case some => exact .quiet rfl rfl rfl (fun _ => .inl) fun _ => .inl
  · rw [after_handleReject]
    cases s.outgoingOf? p
    case none => exact .refl
    case some =>
      refine .quiet rfl rfl rfl (fun _ => .inl) fun c hc => ?_
      rcases List.mem_cons.mp hc with rfl | hc
      · exact .inr nofun
      · exact .inl hc
  · exact handleChunk
  · exact handleDone
  · rw [after_handleCompleteAck]
    cases s.outgoingOf? p
    case none => exact .refl
    case some => exact .quiet rfl rfl rfl (fun _ => .inl) fun _ => .inl
  · exact .refl

theorem decide {i : Nat} {accept : Bool} (ho : s.offers[i]? = some offer) :
    Effect P s (.decide i accept)
      ({ s with offers := s.offers.eraseIdx i }.after (resumeOffer offer accept)) := by
  cases accept
  case false =>
    exact .quiet rfl rfl rfl (fun _ ho => .inl ((List.eraseIdx_sublist _ _).subset ho)) fun _ => .inl
  case true =>
    rw [after, run_resumeOffer_accept]
    split
    case h_1 hn =>
      -- The name is the one of a directory, so that nothing was removed either.
      have hd := FileSystem.openWrite_remove_eq_none.mp hn
      have hs : s.fs.remove (getPartPath offer.destPath) = s.fs :=
        if_neg (by rw [FileSystem.isFile, FileSystem.inode?, hd]; rintro ⟨⟩)
      exact .quiet hs rfl rfl (fun _ ho => .inl ((List.eraseIdx_sublist _ _).subset ho)) fun _ => .inl
    case h_2 fileHandle fs hw =>
      split
      case h_1 => exact .orphaned ho hw
      case h_2 => exact .registered ho hw

theorem ackSent {i : Nat} {success : Bool} (ht : s.verified[i]? = some (t, success)) :
    Effect P s (.ackSent i)
      ({ s with verified := s.verified.eraseIdx i }.after (resumeDone t success)) := by
  cases success
  case false =>
    rw [after, run_resumeDone_mismatch]
    exact .discarded ht
  case true =>
    rw [after, run_resumeDone_success]
    split
    case h_1 => exact .lost ht
    case h_2 hf => exact .finalized ht (finalizePartFile_eq_ok hf)

end Effect

theorem step_effect {downloadsDir : Str} {e : TransferEvent} (h : s.step P downloadsDir e = some s') :
    Effect P s e s' := by
  cases e
  case offerFile =>
    cases h
    exact .quiet rfl rfl rfl (fun _ => .inl) fun _ => .inl
  case receive =>
    cases h
    exact .dispatch
  case decide i accept =>
    have ⟨offer, ho, h⟩ := Option.bind_eq_some_iff.mp h
    cases h
    exact .decide ho
  case abortSent i =>
    have ⟨⟨t, reason⟩, _, h⟩ := Option.bind_eq_some_iff.mp h
    cases h
    refine .quiet rfl rfl rfl (fun _ => .inl) fun c hc => ?_
    rcases List.mem_cons.mp hc with rfl | hc
    · exact .inr nofun
    · exact .inl hc
  case ackSent i =>
    have ⟨⟨t, success⟩, ht, h⟩ := Option.bind_eq_some_iff.mp h
    cases h
    exact .ackSent ht

end TransferState
