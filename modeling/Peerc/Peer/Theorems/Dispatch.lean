import Peerc.Peer.Sessions
import Peerc.Protocol.Validation

-- Which validated messages make a handler fail on a field that it uses

-- A task does not end with `KeyError`, `TypeError` or `AttributeError`.
def NoMisuse {σ α : Type} (r : EStateM.Result HandlerError σ α) : Prop :=
  ∀ e, r.error? = some e → ¬e.IsMisuse

theorem noMisuse_ok {σ α : Type} {a : α} {s : σ} : NoMisuse (.ok a s) :=
  nofun

theorem noMisuse_error {σ α : Type} {e : HandlerError} {s : σ} :
    NoMisuse (.error e s : EStateM.Result HandlerError σ α) ↔ ¬e.IsMisuse := by
  simp only [NoMisuse, EStateM.Result.error?, Option.some.injEq, forall_eq']

-- There is the field, and its value can be a key.
def Packet.Hashable (p : Packet) (name : String) : Prop :=
  (p.key? name).isSome

theorem Packet.hashable_iff {p : Packet} {name : String} {v : Json} (h : p.get? name = some v) :
    p.Hashable name ↔ v.key?.isSome := by
  rw [Hashable, key?, h]
  rfl

namespace ChatState

variable {s : ChatState} {p : Packet}

theorem noMisuse_handleIncomingChat {v : Json} (h : p.get? "message_id" = some v) :
    NoMisuse ((handleIncomingChat p).run s) := by
  rw [handleIncomingChat, Packet.item_of_get? h]
  exact noMisuse_ok

theorem noMisuse_handleAck {v : Json} (h : p.get? "message_id" = some v) :
    NoMisuse ((handleAck p).run s) ↔ p.Hashable "message_id" := by
  simp only [Packet.hashable_iff h, handleAck, EStateM.run_bind, h, Option.getD_some]
  cases hk : v.key?
  case none =>
    obtain ⟨e, he, hm⟩ := Json.hash_of_none hk
    rw [he]
    exact iff_of_false (fun h => noMisuse_error.mp h hm) (by rintro ⟨⟩)
  case some key =>
    refine iff_of_true ?_ rfl
    simp only [Json.hash_of_key? hk, EStateM.run_liftM_ok, EStateM.run_get]
    cases s.lookup key
    case none => exact noMisuse_ok
    case some m => cases hm : m.timeoutTask <;> simp only [hm] <;> exact noMisuse_ok

-- The id of an acknowledgment is hashable.
def Usable (p : Packet) : Prop :=
  p.type? = some (.ofString "chat_ack") → p.Hashable "message_id"

theorem noMisuse_dispatch {v : Json} (hv : Protocol.validateMessage v = .ok ()) :
    NoMisuse ((dispatch (.json v)).run s) ↔ Usable (.json v) := by
  unfold dispatch Usable
  split
  case isTrue hc =>
    have ⟨hp, _⟩ := Protocol.validated_fields hv hc rfl
    have ⟨_, hm⟩ := hp "message_id" (by decide)
    refine iff_of_true (noMisuse_handleIncomingChat hm) fun ha => ?_
    cases hc.symm.trans ha
  case isFalse =>
    split
    case isTrue ha =>
      have ⟨hp, _⟩ := Protocol.validated_fields hv ha rfl
      have ⟨_, hm⟩ := hp "message_id" (by decide)
      exact Iff.trans (noMisuse_handleAck hm) ⟨fun h _ => h, fun h => h ha⟩
    case isFalse ha => exact iff_of_true noMisuse_ok fun h => (ha h).elim

end ChatState

namespace TransferState

open Transfer

variable {P : Primitives} {s : TransferState} {p : Packet} {addrKey downloadsDir : Str}
  {free : Option Nat} {offer : Offer}

theorem noMisuse_findOutgoing {f : Option OutgoingTransfer → TransferM Unit}
    (hf : ∀ t, NoMisuse ((f t).run s)) :
    NoMisuse ((findOutgoing p >>= f).run s) ↔ p.Hashable "transfer_id" := by
  rw [EStateM.run_bind, run_findOutgoing, Packet.Hashable]
  cases hk : p.key? "transfer_id"
  case none =>
    have ⟨e, he, hm⟩ := Packet.key_of_none hk
    rw [he]
    exact iff_of_false (fun h => noMisuse_error.mp h hm) (by rintro ⟨⟩)
  case some key =>
    rw [Packet.key_of_key? hk]
    exact iff_of_true (hf _) rfl

theorem noMisuse_handleAccept :
    NoMisuse ((handleAccept p).run s) ↔ p.Hashable "transfer_id" :=
  noMisuse_findOutgoing fun t => by cases t <;> exact noMisuse_ok

theorem noMisuse_handleReject :
    NoMisuse ((handleReject p).run s) ↔ p.Hashable "transfer_id" :=
  noMisuse_findOutgoing fun t => by cases t <;> exact noMisuse_ok

theorem noMisuse_handleCompleteAck :
    NoMisuse ((handleCompleteAck p).run s) ↔ p.Hashable "transfer_id" :=
  noMisuse_findOutgoing fun t => by cases t <;> exact noMisuse_ok

theorem noMisuse_handleChunk :
    NoMisuse ((handleChunk p).run s) ↔
      ∃ key, p.key? "transfer_id" = some key ∧ ∀ t, s.incoming.find? key = some t → Readable t p := by
  rw [run_handleChunk]
  cases hk : p.key? "transfer_id"
  case none =>
    obtain ⟨e, he, hm⟩ := Packet.key_of_none hk
    rw [he]
    exact iff_of_false (fun h => noMisuse_error.mp h hm) (by rintro ⟨_, ⟨⟩, _⟩)
  case some key =>
    simp only [Packet.key_of_key? hk, Option.some.injEq, existsAndEq, true_and]
    cases s.incoming.find? key
    case none => exact iff_of_true noMisuse_ok (by rintro _ ⟨⟩)
    case some t =>
      simp only [Option.some.injEq, forall_eq']
      rcases checkChunk_cases t p with ⟨hr, verdict, hv⟩ | ⟨hr, e, he, hm⟩
      · rw [hv]
        cases verdict <;> exact iff_of_true noMisuse_ok hr
      · rw [he]
        exact iff_of_false (fun h => noMisuse_error.mp h hm) hr

theorem noMisuse_handleDone {v : Json} (h : p.get? "transfer_id" = some v) :
    NoMisuse ((handleDone P p).run s) ↔ s.incoming.rows = [] ∨ p.Hashable "transfer_id" := by
  by_cases he : s.incoming.rows = []
  case pos =>
    rw [run_handleDone_empty he, Packet.item_of_get? h]
    exact iff_of_true noMisuse_ok (.inl he)
  case neg =>
    rw [run_handleDone he, or_iff_right he, Packet.Hashable]
    cases hk : p.key? "transfer_id"
    case none =>
      obtain ⟨e, he, hm⟩ := Packet.key_of_none hk
      rw [he]
      exact iff_of_false (fun h => noMisuse_error.mp h hm) (by rintro ⟨⟩)
    case some key =>
      simp only [Packet.key_of_key? hk]
      refine iff_of_true ?_ rfl
      split
      case h_1 => exact noMisuse_ok
      case h_2 =>
        split
        · exact noMisuse_error.mpr (by rintro ⟨⟩)
        · exact noMisuse_ok

-- The handler of an offer ends at once if the file is too large or its name is not acceptable.
def Refused (free : Option Nat) (p : Packet) : Prop :=
  ∀ size filename, (p.get? "size").bind Json.int? = some size →
    p.header.text? "filename" = some filename →
    size > maxIncomingFileSize ∨ ¬checkDiskSpace free size ∨ ¬IsAcceptable filename.val

theorem considerOffer_eq {fs : FileSystem Str} {id checksum : Json} {size : Int} {filename : Text}
    (hi : p.get? "transfer_id" = some id) (hf : p.header.text? "filename" = some filename)
    (hs : (p.get? "size").bind Json.int? = some size) (hc : p.get? "checksum" = some checksum) :
    considerOffer downloadsDir free addrKey fs p =
      if size > maxIncomingFileSize ∨ ¬checkDiskSpace free size then .ok none
      else match resolveSafeDestPath fs downloadsDir filename.val with
        | some destPath => .ok (some
          { transferId := id, addrKey, size, checksum := checksum.str?, destPath, offeredAt := fs.fresh })
        | none          =>
          if (safeName? filename.val).isSome then .error (.valueError [.exc "ValueError"]) else .ok none := by
  have ⟨n, hn, hz⟩ := Option.bind_eq_some_iff.mp hs
  have ⟨f, hf, ht⟩ := Option.bind_eq_some_iff.mp hf
  have hf : p.get? "filename" = some f := hf
  have hz : sizeOf n = .ok size := by rw [sizeOf, hz]; rfl
  have ht : filenameOf f = .ok filename := by rw [filenameOf, ht]; rfl
  simp only [considerOffer, Packet.item_of_get? hi, Packet.item_of_get? hf, Packet.item_of_get? hn,
    Packet.item_of_get? hc, hz, ht, bind, Except.bind]
  by_cases h₁ : size > maxIncomingFileSize <;> by_cases h₂ : checkDiskSpace free size <;> simp [h₁, h₂] <;> rfl

theorem noMisuse_resumeOffer :
    (∀ (s : TransferState) accept, NoMisuse ((resumeOffer offer accept).run s)) ↔
      offer.transferId.key?.isSome := by
  cases hk : offer.transferId.key?
  case none =>
    have ⟨e, he, hm⟩ := Json.hash_of_none hk
    refine iff_of_false (fun h => ?_) nofun
    have h := h { fs := .empty } true
    rw [run_resumeOffer_accept] at h
    split at h
    case h_1 hn => cases FileSystem.openWrite_remove_eq_none.mp hn
    case h_2 =>
      rw [he] at h
      exact noMisuse_error.mp h hm
  case some key =>
    refine iff_of_true (fun s accept => ?_) rfl
    cases accept
    case false => exact noMisuse_ok
    case true =>
      rw [run_resumeOffer_accept]
      split
      case h_1 => exact noMisuse_error.mpr (by rintro ⟨⟩)
      case h_2 =>
        rw [Json.hash_of_key? hk]
        exact noMisuse_ok

theorem noMisuse_resumeDone {t : IncomingTransfer} {success : Bool} :
    NoMisuse ((resumeDone t success).run s) := by
  cases success
  case false =>
    rw [run_resumeDone_mismatch]
    exact noMisuse_ok
  case true =>
    rw [run_resumeDone_success]
    split
    · exact noMisuse_error.mpr (by rintro ⟨⟩)
    · exact noMisuse_ok

-- The handler is not suspended in an offer.
theorem not_resumes {s' : TransferState} {q : Offer → Prop} (h : s'.offers = s.offers) :
    ∀ offer, s'.offers = s.offers ++ [offer] → q offer := by
  intro offer ho
  rw [h] at ho
  exact (List.cons_ne_nil _ _ (List.self_eq_append_right.mp ho)).elim

-- The fields of a message that its handler uses are there and have types that it can use, unless it ends
-- before that.
def Usable (s : TransferState) (free : Option Nat) (p : Packet) : Prop :=
  if p.type? = some (.ofString "file_offer") then Refused free p ∨ p.Hashable "transfer_id"
  else if p.type? = some (.ofString "file_accept") then p.Hashable "transfer_id"
  else if p.type? = some (.ofString "file_reject") then p.Hashable "transfer_id"
  else if p.type? = some (.ofString "file_data") then
    ∃ key, p.key? "transfer_id" = some key ∧ ∀ t, s.incoming.find? key = some t → Readable t p
  else if p.type? = some (.ofString "file_done") then
    s.incoming.rows = [] ∨ p.Hashable "transfer_id"
  else if p.type? = some (.ofString "file_complete_ack") then p.Hashable "transfer_id"
  else True

theorem safe_handleOffer {id checksum : Json} {size : Int} {filename : Text}
    (hi : p.get? "transfer_id" = some id) (hf : p.header.text? "filename" = some filename)
    (hs : (p.get? "size").bind Json.int? = some size) (hc : p.get? "checksum" = some checksum) :
    (NoMisuse ((handleOffer downloadsDir free addrKey p).run s) ∧
      ∀ offer, (s.after (handleOffer downloadsDir free addrKey p)).offers = s.offers ++ [offer] →
        ∀ (s' : TransferState) accept, NoMisuse ((resumeOffer offer accept).run s')) ↔
      Refused free p ∨ p.Hashable "transfer_id" := by
  have hr : Refused free p ↔
      size > maxIncomingFileSize ∨ ¬checkDiskSpace free size ∨ ¬IsAcceptable filename.val := by
    refine ⟨fun h => h size filename hs hf, fun h size' filename' hs' hf' => ?_⟩
    cases hs.symm.trans hs'
    cases hf.symm.trans hf'
    exact h
  rw [hr, Packet.hashable_iff hi, after, run_handleOffer, considerOffer_eq hi hf hs hc]
  simp only [noMisuse_resumeOffer]
  by_cases hl : size > maxIncomingFileSize ∨ ¬checkDiskSpace free size
  case pos =>
    rw [if_pos hl, ← or_assoc]
    exact iff_of_true ⟨noMisuse_ok, not_resumes rfl⟩ (.inl (.inl hl))
  case neg =>
    rw [if_neg hl, ← or_assoc, or_iff_right hl, ← resolveSafeDestPath_eq_none]
    cases resolveSafeDestPath s.fs downloadsDir filename.val
    case none =>
      refine iff_of_true ?_ (.inl rfl)
      by_cases hn : (safeName? filename.val).isSome
      case pos =>
        simp only [if_pos hn]
        exact ⟨noMisuse_error.mpr (by rintro ⟨⟩), not_resumes rfl⟩
      case neg =>
        simp only [if_neg hn]
        exact ⟨noMisuse_ok, not_resumes rfl⟩
    case some destPath =>
      refine (and_iff_right noMisuse_ok).trans ?_
      simp [EStateM.Result.state]

theorem offers_handleChunk : (s.after (handleChunk p)).offers = s.offers := by
  rw [after_handleChunk]
  cases s.incomingOf? p
  case none => rfl
  case some t =>
    simp only [Option.elim]
    split <;> rfl

theorem offers_handleDone : (s.after (handleDone P p)).offers = s.offers := by
  rw [after_handleDone]
  cases s.incomingOf? p
  case none => rfl
  case some t =>
    simp only [Option.elim]
    split <;> rfl

theorem safe_dispatch {v : Json} (hv : Protocol.validateMessage v = .ok ()) :
    (NoMisuse ((dispatch P downloadsDir free addrKey (.json v)).run s) ∧
      ∀ offer, (s.after (dispatch P downloadsDir free addrKey (.json v))).offers = s.offers ++ [offer] →
        ∀ (s' : TransferState) accept, NoMisuse ((resumeOffer offer accept).run s')) ↔
      s.Usable free (.json v) := by
  unfold dispatch Usable
  repeat' split
  case isTrue ht =>
    obtain ⟨hp, hc⟩ := Protocol.validated_fields hv ht rfl
    obtain ⟨_, hi⟩ := hp "transfer_id" (by decide)
    obtain ⟨_, hk⟩ := hp "checksum" (by decide)
    obtain ⟨⟨_, hf⟩, _, hs, _⟩ := Protocol.checkFileOffer_eq_ok hc
    exact safe_handleOffer hi hf hs hk
  case isTrue =>
    refine Iff.trans (and_iff_left (not_resumes ?_)) noMisuse_handleAccept
    rw [after_handleAccept]
    cases s.outgoingOf? (.json v) <;> rfl
  case isTrue =>
    refine Iff.trans (and_iff_left (not_resumes ?_)) noMisuse_handleReject
    rw [after_handleReject]
    cases s.outgoingOf? (.json v) <;> rfl
  case isTrue =>
    exact Iff.trans (and_iff_left (not_resumes offers_handleChunk)) noMisuse_handleChunk
  case isTrue ht =>
    obtain ⟨hp, _⟩ := Protocol.validated_fields hv ht rfl
    obtain ⟨_, hi⟩ := hp "transfer_id" (by decide)
    exact Iff.trans (and_iff_left (not_resumes offers_handleDone)) (noMisuse_handleDone hi)
  case isTrue =>
    refine Iff.trans (and_iff_left (not_resumes ?_)) noMisuse_handleCompleteAck
    rw [after_handleCompleteAck]
    cases s.outgoingOf? (.json v) <;> rfl
  case isFalse => exact iff_of_true ⟨noMisuse_ok, not_resumes rfl⟩ trivial

end TransferState

-- Neither the handler of the message nor what it does after it was suspended fails on a field, exactly if the
-- message is usable.
theorem validated_dispatch_safe (P : Primitives) (downloadsDir addrKey : Str) (free : Option Nat)
    (s : Sessions) {v : Json} (hv : Protocol.validateMessage v = .ok ()) :
    ((∀ e, (HandlerPart.arrived addrKey free (.json v)).Raises P downloadsDir s e → ¬e.IsMisuse) ∧
      ∀ part, (HandlerPart.arrived addrKey free (.json v)).Resumes P downloadsDir s part →
        ∀ s' e, part.Raises P downloadsDir s' e → ¬e.IsMisuse) ↔
      ChatState.Usable (.json v) ∧ s.files.Usable free (.json v) := by
  have hf : (NoMisuse ((TransferState.dispatch P downloadsDir free addrKey (.json v)).run s.files) ∧ _) ↔ _ :=
    TransferState.safe_dispatch hv
  rw [← ChatState.noMisuse_dispatch (s := s.chat) hv, ← hf]
  constructor
  case mp =>
    rintro ⟨ha, hr⟩
    refine ⟨fun e he => ha e (.inl he), fun e he => ha e (.inr he), fun offer ho s' accept => ?_⟩
    exact hr (.decided offer accept) ho { files := s' }
  case mpr =>
    rintro ⟨hc, hf, ho⟩
    refine ⟨fun e he => he.elim (hc e) (hf e), fun part hp s' e => ?_⟩
    cases part
    case arrived => exact hp.elim
    case decided offer accept => exact ho offer hp s'.files accept e
    case abortSent => exact noMisuse_ok e
    case ackSent => exact TransferState.noMisuse_resumeDone e

-- A JSON message with the type of the binary frames
theorem validated_dispatch_safe_missing :
    ∃ v, Protocol.validateMessage v = .ok () ∧ ∀ P downloadsDir addrKey free s,
      ∃ e, (HandlerPart.arrived addrKey free (.json v)).Raises P downloadsDir s e ∧ e.IsMisuse :=
  ⟨.obj [(.ofString "type", .str (.ofString "file_data"))], rfl,
    fun _ _ _ _ _ => ⟨.keyError "transfer_id", .inr rfl, trivial⟩⟩

theorem validated_dispatch_safe_reject :
    ∃ v, Protocol.validateMessage v = .ok () ∧
      ∀ e, (HandlerPart.arrived [] none (.json v)).Raises .transparent [] { files := { fs := .empty } } e →
        ¬e.IsMisuse := by
  let v : Json := .obj [
    (.ofString "type", .str (.ofString "file_reject")),
    (.ofString "transfer_id", .str (.ofString "1"))
  ]
  have hv : Protocol.validateMessage v = .ok () := rfl
  refine ⟨v, hv, ((validated_dispatch_safe .transparent [] [] none _ hv).mpr ?_).left⟩
  exact ⟨nofun, rfl⟩
