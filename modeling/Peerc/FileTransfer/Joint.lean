import Peerc.FileTransfer.Stages

-- The steps of an exchange

open Protocol Transfer TransferState FileSystem

namespace UploadState

variable {P : Primitives} {u u' : Upload} {p : Packet}

-- The transfer is the only one.
def alone (u : Upload) : UploadState where
  uploads := .replace .empty u

theorem find?_alone {transferId : Text} (h : u.transferId = transferId) :
    (alone u).uploads.find? transferId = some u := by
  rw [alone, Table.find?_replace, if_pos h.symm]

theorem put_alone (h : u'.transferId = u.transferId) : (alone u).put u' = alone u' :=
  congrArg UploadState.mk (Table.replace_replace_empty h)

theorem outgoing?_alone (hp : p.key? "transfer_id" = some (.str u.transferId)) (hr : u.registered) :
    (alone u).outgoing? p = some u := by
  rw [outgoing?_eq hp (Table.mem_of_find? (find?_alone rfl)), if_pos hr]

end UploadState

namespace Exchange

variable {P : Primitives} {d : Delivery} {s : Exchange} {e : UploadEvent} {u u' : Upload}

-- A step of the sender, which knows of no other transfer
theorem senderStep_alone (hu : u.transferId = d.transferId) (hu' : u'.transferId = d.transferId)
    (hs : s.sender = .alone u) (he : (UploadState.alone u).step P e = some (.alone u')) :
    s.senderStep P d e = some { s with
      sender     := .alone u'
      toReceiver := s.toReceiver ++ (u'.written.drop u.written.length).flatMap (bytes P ·.frame) } := by
  simp only [senderStep, hs, he, Option.map_some, output, UploadState.find?_alone hu,
    UploadState.find?_alone hu', Option.getD_some]

theorem senderStep_eq_none (hs : s.sender.step P e = none) : s.senderStep P d e = none := by
  rw [senderStep, hs]
  rfl

theorem receiverStep_eq_none {e : TransferEvent} (hr : s.receiver.step P d.downloadsDir e = none) :
    s.receiverStep P d e = none := by
  rw [receiverStep, hr]
  rfl

theorem receiverStep_eq_some {e : TransferEvent} {receiver : TransferState}
    (hr : s.receiver.step P d.downloadsDir e = some receiver) :
    s.receiverStep P d e = some { s with
      receiver
      toSender := s.toSender ++
        (s.receiver.replies P d.downloadsDir d.answeredAt e).flatMap (bytes P <| .json ·) } := by
  rw [receiverStep, hr]
  rfl

theorem isOffering_alone (hu : u.transferId = d.transferId) (hs : s.sender = .alone u) :
    s.isOffering d = u.offering := by
  rw [isOffering, hs, UploadState.find?_alone hu]
  rfl

-- The transfer has been offered.
theorem offerFile_alone (hu : u.transferId = d.transferId) (hs : s.sender = .alone u) :
    s.sender.step P (.offerFile d.transferId d.receiverKey d.filepath d.filename d.content true d.offeredAt) =
      none := by
  simp only [hs, UploadState.step, UploadState.find?_alone hu, Option.isSome_some, if_true]

theorem nextPacket_bytes {f : AnyFrame} {frame : Bytes} {p : Packet} (he : f.encode P = .ok frame)
    (hf : IsFrame P frame p) : (nextPacket readExactly P).run (bytes P f) = .ok p [] := by
  rw [bytes_of_encode he, ← List.append_nil frame]
  exact nextPacket_frame hf []

-- Nothing is read from a connection on which nothing is.

theorem step_senderReads_nil (h : s.toSender = []) : s.step P d .senderReads = none := by
  rw [step, h]
  rfl

theorem step_receiverReads_nil (h : s.toReceiver = []) : s.step P d .receiverReads = none := by
  rw [step, h]
  rfl

theorem step_senderReads {p : Packet} {rest : Bytes} (h : (nextPacket readExactly P).run s.toSender = .ok p rest)
    (ho : s.isOffering d = false) :
    s.step P d .senderReads = { s with toSender := rest }.senderStep P d (.receive p) := by
  simp only [step, h, ho, Bool.false_eq_true, if_false]

-- The sender does not look at the answer before `offer_file` has returned.
theorem step_senderReads_offering (h : s.isOffering d) : s.step P d .senderReads = none := by
  rw [step]
  split
  · exact if_pos h
  · rfl

theorem step_receiverReads {p : Packet} {rest : Bytes}
    (h : (nextPacket readExactly P).run s.toReceiver = .ok p rest) :
    s.step P d .receiverReads =
      { s with toReceiver := rest }.receiverStep P d (.receive d.senderKey d.free p) := by
  simp only [step, h]

end Exchange

namespace Delivery

open Exchange

variable (P : Primitives) (d : Delivery) (destPath : Str)

-- The upload from the offer until it is accepted
def offering (b : Bool) : Upload :=
  { d.upload.write (.offer (d.offer P)) with offering := b, registered := ¬b }

theorem offering_id {b : Bool} : (d.offering P b).transferId = d.transferId := rfl

-- The receiver and the connection from the offer until it is accepted, with the steps to come
inductive Asking : Nat → TransferState → (toReceiver toSender : Bytes) → Prop
  | unread : Asking 2 { fs := d.fs } (bytes P (.json (d.offer P))) []
  | asked :
    Asking 1
      { fs := d.fs
        offers := [offered d.fs d.senderKey d.transferId (d.upload.checksum P) d.content.length destPath] } [] []
  | accepted :
    Asking 0
      (alone (d.fs.create (getPartPath destPath))
        (begun d.fs d.senderKey d.transferId (d.upload.checksum P) d.content.length destPath))
      [] (bytes P (.json d.accept))

-- After the offer has been accepted
structure Streaming (m : Nat) (s : Exchange) (x y : Nat) (acked fin : Bool) (u : Upload) : Prop where
  sender     : s.sender = .alone u
  sending    : d.Sending P x acked u
  sent       : d.chunks.length + 3 ≤ x → acked ∧ d.Sent u
  received   : d.Received P destPath y fin s.receiver
  read_le    : y ≤ x
  x_le       : x ≤ d.chunks.length + 3
  y_le       : y ≤ d.chunks.length + 1
  ack_read   : acked → y = d.chunks.length + 1
  toReceiver : s.toReceiver = d.wire P x y
  toSender   : s.toSender = if y = d.chunks.length + 1 ∧ ¬acked then bytes P (.json d.ack) else []
  left       : m = (d.chunks.length + 3 - x) + (d.chunks.length + 1 - y) + (!fin).toNat + (!acked).toNat

-- How far the exchange has come, with the number of steps that are left
inductive Stage (m : Nat) (s : Exchange) : Prop
  | start (start : s = { receiver := { fs := d.fs } }) (left : m = 2 * d.chunks.length + 11)
  | offered {k : Nat} {b : Bool} (sender : s.sender = .alone (d.offering P b))
      (asking : d.Asking P destPath k s.receiver s.toReceiver s.toSender)
      (left : m = 2 * d.chunks.length + 7 + b.toNat + k)
  | streaming {x y : Nat} {acked fin : Bool} {u : Upload} (streaming : d.Streaming P destPath m s x y acked fin u)

variable {P d destPath} {m : Nat} {s s' : Exchange}

namespace Asking

variable {k : Nat} {toReceiver toSender : Bytes} {r : TransferState}

theorem le_two (ha : d.Asking P destPath k r toReceiver toSender) : k ≤ 2 := by
  cases ha <;> decide

theorem toReceiver_eq (ha : d.Asking P destPath 2 r toReceiver toSender) :
    toReceiver = bytes P (.json (d.offer P)) := by
  cases ha
  rfl

theorem toSender_eq_nil (ha : d.Asking P destPath k r toReceiver toSender) (hk : k ≠ 0) : toSender = [] := by
  cases ha
  case accepted => exact absurd rfl hk
  all_goals rfl

theorem toReceiver_eq_nil (ha : d.Asking P destPath k r toReceiver toSender) (hk : k ≠ 2) :
    toReceiver = [] := by
  cases ha
  case unread => exact absurd rfl hk
  all_goals rfl

-- Only the user is waited for.

theorem step_decide_eq_none (ha : d.Asking P destPath k r toReceiver toSender) {i : Nat}
    (hk : k ≠ 1 ∨ i ≠ 0) : r.step P d.downloadsDir (.decide i true) = none := by
  cases ha
  case asked =>
    obtain hk | hi := hk
    · exact absurd rfl hk
    obtain ⟨i, rfl⟩ := Nat.exists_eq_succ_of_ne_zero hi
    rfl
  all_goals rfl

theorem step_abortSent_eq_none (ha : d.Asking P destPath k r toReceiver toSender) (i : Nat) :
    r.step P d.downloadsDir (.abortSent i) = none := by
  cases ha <;> rfl

theorem step_ackSent_eq_none (ha : d.Asking P destPath k r toReceiver toSender) (i : Nat) :
    r.step P d.downloadsDir (.ackSent i) = none := by
  cases ha <;> rfl

end Asking

-- From the start to the acceptance

section

variable (h : d.Acceptable P destPath) (hP : P.Lawful)
include h hP

theorem step_offerFile : ∃ s', Exchange.step P d { receiver := { fs := d.fs } } .offerFile = some s' ∧
    d.Stage P destPath (2 * d.chunks.length + 10) s' := by
  obtain ⟨frame, hf, -⟩ := h.frame_offer hP
  have hs : UploadState.step P {} (.offerFile d.transferId d.receiverKey d.filepath d.filename d.content true
      d.offeredAt) = some (.alone (d.offering P true)) := by
    have hf' : encodeFrame P (Upload.offer P
        { transferId := d.transferId, addrKey := d.receiverKey, filepath := d.filepath, filename := d.filename,
          content := d.content } d.offeredAt) = .ok frame := hf
    simp only [UploadState.step, UploadState.offerFile, hf']
    rfl
  have hu : (UploadState.alone (d.offering P true)).uploads.find? d.transferId = some (d.offering P true) :=
    UploadState.find?_alone (offering_id P d)
  have ho : output d {} (.alone (d.offering P true)) = [.offer (d.offer P)] := by
    simp only [output, hu, Option.map_some, Option.getD_some]
    rfl
  have he : Exchange.step P d { receiver := { fs := d.fs } } .offerFile = some
      { sender := .alone (d.offering P true), receiver := { fs := d.fs },
        toReceiver := bytes P (.json (d.offer P)) } := by
    simp only [Exchange.step, senderStep, hs, Option.map_some, ho, List.nil_append, List.flatMap_singleton]
    rfl
  exact ⟨_, he, .offered (k := 2) (b := true) rfl .unread rfl⟩

-- The receiver asks its user.
theorem step_reads_offer {b : Bool} (hs : s.sender = .alone (d.offering P b))
    (ha : d.Asking P destPath 2 s.receiver s.toReceiver s.toSender) :
    ∃ s', s.step P d .receiverReads = some s' ∧ d.Stage P destPath (2 * d.chunks.length + 7 + b.toNat + 1) s' := by
  generalize hr : s.receiver = r at ha
  generalize ht : s.toReceiver = toReceiver at ha
  generalize hu : s.toSender = toSender at ha
  cases ha
  obtain ⟨frame, he, hf⟩ := h.frame_offer hP
  have hn : (nextPacket readExactly P).run s.toReceiver = .ok (.json (d.offer P)) [] :=
    ht ▸ nextPacket_bytes he hf
  have hc : considerOffer d.downloadsDir d.free d.senderKey d.fs (.json (d.offer P)) = .ok (some _) :=
    considerOffer_of_fits h.size h.space h.dest
  have ho : TransferState.after { fs := d.fs } (dispatch P d.downloadsDir d.free d.senderKey
      (.json (d.offer P))) = _ := after_offer h.size h.space h.dest
  have hq : TransferState.replies P d.downloadsDir d.answeredAt { fs := d.fs }
      (.receive d.senderKey d.free (.json (d.offer P))) = [] := by
    rw [replies, ho, rejections_of_considered _ _ { fs := d.fs } hc]
    rfl
  rw [step_receiverReads hn]
  have hx : TransferState.step P d.downloadsDir s.receiver
      (.receive d.senderKey d.free (.json (d.offer P))) = some _ :=
    hr ▸ congrArg some ho
  refine ⟨_, receiverStep_eq_some hx, .offered (k := 1) (b := b) hs ?_ rfl⟩
  rw [hr, hq, hu]
  exact .asked

-- The sender learns that the offer is accepted.
theorem step_reads_accept (hs : s.sender = .alone (d.offering P false))
    (ha : d.Asking P destPath 0 s.receiver s.toReceiver s.toSender) :
    ∃ s', s.step P d .senderReads = some s' ∧ d.Stage P destPath (2 * d.chunks.length + 6) s' := by
  generalize hr : s.receiver = r at ha
  generalize ht : s.toReceiver = toReceiver at ha
  generalize hu : s.toSender = toSender at ha
  cases ha
  obtain ⟨frame, he, hf⟩ := h.frame_accept hP
  have hn : (nextPacket readExactly P).run s.toSender = .ok (.json d.accept) [] :=
    hu ▸ nextPacket_bytes he hf
  have ho : s.isOffering d = false := isOffering_alone (offering_id P d) hs
  have hx : (UploadState.alone (d.offering P false)).step P (.receive (.json d.accept)) =
      some (.alone (d.offering P false).handleAccept) := by
    rw [UploadState.step, UploadState.receive, UploadState.outgoing?_alone rfl rfl]
    exact congrArg some (UploadState.put_alone rfl)
  have hst : d.Streaming P destPath (2 * d.chunks.length + 6)
      { s with sender := .alone (d.offering P false).handleAccept, toReceiver := [], toSender := [] } 0 0 false
      false (d.offering P false).handleAccept := {
    sender     := rfl
    sending    := ⟨rfl, rfl, rfl, rfl, rfl, rfl, rfl, nofun, fun _ => rfl, fun _ => rfl⟩
    sent       := nofun
    received   := by
      rw [hr]
      exact .receiving (Nat.zero_le _) (.begun h)
    read_le    := Nat.le_refl 0
    x_le       := Nat.zero_le _
    y_le       := Nat.zero_le _
    ack_read   := nofun
    toReceiver := rfl
    toSender   := rfl
    left       := by
      simp only [Bool.not_false, Bool.toNat_true]
      omega
  }
  refine ⟨_, ?_, .streaming hst⟩
  rw [step_senderReads hn ho,
    senderStep_alone (s := { s with toSender := [] }) (offering_id P d) rfl hs hx, ht]
  rfl

end

-- The receiver's user accepts.
theorem step_accepts (h : d.Acceptable P destPath) {b : Bool} (hs : s.sender = .alone (d.offering P b))
    (ha : d.Asking P destPath 1 s.receiver s.toReceiver s.toSender) :
    ∃ s', s.step P d (.decide 0) = some s' ∧ d.Stage P destPath (2 * d.chunks.length + 7 + b.toNat) s' := by
  generalize hr : s.receiver = r at ha
  generalize ht : s.toReceiver = toReceiver at ha
  generalize hu : s.toSender = toSender at ha
  cases ha
  obtain ⟨-, hp⟩ := resolveSafeDestPath_free h.dest
  have hx : s.receiver.step P d.downloadsDir (.decide 0 true) = some _ := hr ▸ step_decide hp
  have hq : s.receiver.replies P d.downloadsDir d.answeredAt (.decide 0 true) = [d.accept] := by
    simp only [hr, replies, List.getElem?_cons_zero, run_resumeOffer_accept, offered, remove_of_none hp,
      openWrite_of_none hp]
    rfl
  refine ⟨_, receiverStep_eq_some hx, .offered (k := 0) (b := b) hs ?_ rfl⟩
  rw [hq, ht, hu, List.nil_append, List.flatMap_singleton]
  exact .accepted

theorem step_offerSent {k : Nat} (hs : s.sender = .alone (d.offering P true))
    (ha : d.Asking P destPath k s.receiver s.toReceiver s.toSender) :
    ∃ s', s.step P d .offerSent = some s' ∧ d.Stage P destPath (2 * d.chunks.length + 7 + k) s' := by
  have hx : (UploadState.alone (d.offering P true)).step P (.offerSent d.transferId true) =
      some (.alone (d.offering P false)) := by
    rw [UploadState.step, UploadState.find?_alone (offering_id P d)]
    exact congrArg some (UploadState.put_alone rfl)
  refine ⟨_, senderStep_alone (offering_id P d) (offering_id P d) hs hx, .offered (k := k) (b := false) rfl ?_ rfl⟩
  exact (List.append_nil _).symm ▸ ha

namespace Streaming

variable {x y : Nat} {acked fin : Bool} {u u' : Upload}

-- The sender goes on.

theorem resumed (hs : d.Streaming P destPath m s x y acked fin u) (hx : x < d.chunks.length + 3)
    (hr : u.resume P 0 Sending.turn = some u') (hu' : d.Sending P (x + 1) acked u')
    (he : d.chunks.length + 3 ≤ x + 1 → acked ∧ d.Sent u') :
    ∃ s', s.step P d (.resume 0) = some s' ∧ d.Streaming P destPath (m - 1) s' (x + 1) y acked fin u' := by
  have hu := hs.sending
  have hx' : (UploadState.alone u).step P (.resume d.transferId 0 Sending.turn) = some (.alone u') := by
    simp only [UploadState.step, UploadState.find?_alone hu.transferId, Option.bind_eq_bind, Option.bind_some, hr]
    exact congrArg some (UploadState.put_alone (hu'.transferId.trans hu.transferId.symm))
  refine ⟨_, senderStep_alone hu.transferId hu'.transferId hs.sender hx', ?_⟩
  exact {
    hs with
    sender     := rfl
    sending    := hu'
    sent       := he
    read_le    := hs.read_le.trans (Nat.le_succ x)
    x_le       := hx
    toReceiver := by rw [hu.written_drop hu', hs.toReceiver, wire_succ hs.read_le]
    left       := by
      have hl := hs.left
      omega
  }

theorem resume (h : d.Acceptable P destPath) (hP : P.Lawful) (hs : d.Streaming P destPath m s x y acked fin u)
    (hx : x < d.chunks.length + 3) (ha : x = d.chunks.length + 2 → acked) :
    ∃ s' u', s.step P d (.resume 0) = some s' ∧ d.Streaming P destPath (m - 1) s' (x + 1) y acked fin u' := by
  rcases Nat.lt_or_ge x (d.chunks.length + 2) with hx' | hx'
  case inl =>
    obtain ⟨u', hr, hu'⟩ := hs.sending.resume_lt h hP hx'
    obtain ⟨s', hs'⟩ := hs.resumed hx hr hu' fun hn => by omega
    exact ⟨s', u', hs'⟩
  case inr =>
    obtain rfl : x = d.chunks.length + 2 := by omega
    obtain rfl : acked = true := ha rfl
    have hr := hs.sending.resume_awaitingAck
    obtain ⟨hu', he⟩ := hs.sending.complete
    obtain ⟨s', hs'⟩ := hs.resumed hx hr hu' fun _ => ⟨rfl, he⟩
    exact ⟨s', _, hs'⟩

-- The sender reads the acknowledgement.
theorem reads_ack (h : d.Acceptable P destPath) (hs : d.Streaming P destPath m s x y false fin u)
    (hy : y = d.chunks.length + 1) :
    ∃ s', s.step P d .senderReads = some s' ∧
      d.Streaming P destPath (m - 1) s' x y true fin (u.handleCompleteAck true) := by
  obtain ⟨frame, he, hf⟩ := h.frame_ack (P := P)
  have hu := hs.sending
  have hx : x < d.chunks.length + 3 := by
    by_contra hx
    exact Bool.false_ne_true (hs.sent (Nat.not_lt.mp hx)).left
  have hn : (nextPacket readExactly P).run s.toSender = .ok (.json d.ack) [] := by
    rw [hs.toSender, if_pos ⟨hy, Bool.false_ne_true⟩]
    exact nextPacket_bytes he hf
  have ho : s.isOffering d = false := (isOffering_alone hu.transferId hs.sender).trans hu.offering
  have hk : (Packet.json d.ack).key? "transfer_id" = some (.str u.transferId) := by
    rw [hu.transferId]
    rfl
  have hx' : (UploadState.alone u).step P (.receive (.json d.ack)) = some (.alone (u.handleCompleteAck true)) := by
    rw [UploadState.step, UploadState.receive, UploadState.outgoing?_alone hk (hu.registered hx)]
    exact congrArg some (UploadState.put_alone rfl)
  have hd : (u.handleCompleteAck true).written.drop u.written.length = [] := List.drop_length
  refine ⟨{ s with sender := .alone (u.handleCompleteAck true), toSender := [] }, ?_, {
    hs with
    sender     := rfl
    sending    := hu.acknowledge
    sent       := fun hn => absurd hx (Nat.not_lt.mpr hn)
    ack_read   := fun _ => hy
    toReceiver := hs.toReceiver
    toSender   := (if_neg (not_and_not_right.mpr fun _ => rfl)).symm
    left       := by
      have hl := hs.left
      simp only [Bool.not_false, Bool.toNat_true, Bool.not_true, Bool.toNat_false] at hl ⊢
      omega
  }⟩
  rw [step_senderReads hn ho, senderStep_alone (s := { s with toSender := [] }) hu.transferId
    hu.acknowledge.transferId hs.sender hx', hd, List.flatMap_nil, List.append_nil]

-- The receiver reads the next frame. The acknowledgement is on its way after the last one.
theorem reads (hs : d.Streaming P destPath m s x y acked fin u) (hx : y < x) (hy : y ≤ d.chunks.length)
    {p : Packet} (hn : (nextPacket readExactly P).run s.toReceiver = .ok p (d.wire P x (y + 1)))
    (hr : d.Received P destPath (y + 1) fin
      (s.receiver.after (dispatch P d.downloadsDir d.free d.senderKey p)))
    (hq : Received.sends P d s.receiver (.receive d.senderKey d.free p) =
      if y = d.chunks.length then [d.ack] else []) :
    ∃ s', s.step P d .receiverReads = some s' ∧ d.Streaming P destPath (m - 1) s' x (y + 1) acked fin u := by
  have ha : acked = false := Bool.eq_false_iff.mpr fun ha => absurd (hs.ack_read ha) (by omega)
  have hf : s.toSender = [] := by
    rw [hs.toSender, if_neg fun hn => absurd hn.left (by omega)]
  refine ⟨_, (step_receiverReads hn).trans (receiverStep_eq_some rfl), ?_⟩
  exact {
    hs with
    received   := hr
    read_le    := hx
    y_le       := Nat.succ_le_succ hy
    ack_read   := fun hn => absurd (ha ▸ hn) Bool.false_ne_true
    toReceiver := rfl
    toSender   := by
      change s.toSender ++ (Received.sends ..).flatMap _ = _
      rw [hf, hq, ha]
      by_cases hl : y = d.chunks.length <;> simp [hl]
    left       := by
      have hl := hs.left
      omega
  }

theorem reads_frame (h : d.Acceptable P destPath) (hP : P.Lawful)
    (hs : d.Streaming P destPath m s x y acked fin u) (hx : y < x) (hy : y ≤ d.chunks.length) :
    ∃ s', s.step P d .receiverReads = some s' ∧ d.Streaming P destPath (m - 1) s' x (y + 1) acked fin u := by
  rcases hy.lt_or_eq with hy' | rfl
  case inl =>
    have hn : (nextPacket readExactly P).run s.toReceiver =
        .ok (d.chunks[y].packet d.transferId) (d.wire P x (y + 1)) :=
      hs.toReceiver ▸ nextPacket_wire h hP hx (packets_chunk hy')
    obtain ⟨hr, hq, -⟩ := hs.received.read_chunk hy'
    exact hs.reads hx hy hn hr (hq.trans (if_neg hy'.ne).symm)
  case inr =>
    have hn : (nextPacket readExactly P).run s.toReceiver =
        .ok (.json (d.done P)) (d.wire P x (d.chunks.length + 1)) :=
      hs.toReceiver ▸ nextPacket_wire h hP hx packets_done
    obtain ⟨hr, hq⟩ := hs.received.read_done
    exact hs.reads hx hy hn hr (hq.trans (if_pos rfl).symm)

-- The file gets its name.
theorem ackSent (hs : d.Streaming P destPath m s x y acked false u) (hy : y = d.chunks.length + 1) :
    ∃ s', s.step P d (.ackSent 0) = some s' ∧ d.Streaming P destPath (m - 1) s' x y acked true u := by
  subst hy
  obtain ⟨r, hr, hc⟩ := hs.received.ackSent
  refine ⟨_, receiverStep_eq_some hr, ?_⟩
  exact {
    hs with
    received := hc
    toSender := (List.append_nil _).trans hs.toSender
    left     := by
      have hl := hs.left
      simp only [Bool.not_false, Bool.toNat_true, Bool.not_true, Bool.toNat_false] at hl ⊢
      omega
  }

-- There are no other steps.

theorem of_resume (h : d.Acceptable P destPath) (hP : P.Lawful)
    (hs : d.Streaming P destPath m s x y acked fin u) {i : Nat} (he : s.step P d (.resume i) = some s') :
    ∃ m' < m, d.Stage P destPath m' s' := by
  have hl := hs.left
  have hu := hs.sending
  by_cases hi : i = 0 ∧ x < d.chunks.length + 3 ∧ (x = d.chunks.length + 2 → acked)
  case pos =>
    obtain ⟨rfl, hx, ha⟩ := hi
    obtain ⟨s₁, u', hs₁, hst⟩ := hs.resume h hP hx ha
    cases hs₁.symm.trans he
    exact ⟨_, by omega, .streaming hst⟩
  case neg =>
    have hr : u.resume P i Sending.turn = none := by
      by_cases hx : i ≠ 0 ∨ d.chunks.length + 3 ≤ x
      case pos => exact hu.resume_eq_none hx
      case neg =>
        obtain ⟨rfl, hl⟩ : i = 0 ∧ x < d.chunks.length + 3 := by omega
        obtain ⟨rfl, ha⟩ := Classical.not_imp.mp fun hn => hi ⟨rfl, hl, hn⟩
        rw [hu.resume_awaitingAck, if_neg ha]
    have hn : (UploadState.alone u).step P (.resume d.transferId i Sending.turn) = none := by
      simp only [UploadState.step, UploadState.find?_alone hu.transferId, Option.bind_eq_bind, Option.bind_some,
        hr, Option.bind_none]
    rw [Exchange.step, senderStep_eq_none (hs.sender ▸ hn)] at he
    cases he

theorem of_senderReads (h : d.Acceptable P destPath) (hs : d.Streaming P destPath m s x y acked fin u)
    (he : s.step P d .senderReads = some s') : ∃ m' < m, d.Stage P destPath m' s' := by
  by_cases hy : y = d.chunks.length + 1 ∧ ¬acked
  case pos =>
    obtain ⟨hy, ha⟩ := hy
    obtain rfl : acked = false := Bool.eq_false_iff.mpr ha
    have hl : m = _ + 1 := hs.left
    obtain ⟨s₁, hs₁, hst⟩ := hs.reads_ack h hy
    cases hs₁.symm.trans he
    exact ⟨_, by omega, .streaming hst⟩
  case neg =>
    rw [step_senderReads_nil (hs.toSender.trans (if_neg hy))] at he
    cases he

theorem of_receiverReads (h : d.Acceptable P destPath) (hP : P.Lawful)
    (hs : d.Streaming P destPath m s x y acked fin u) (he : s.step P d .receiverReads = some s') :
    ∃ m' < m, d.Stage P destPath m' s' := by
  have hl := hs.left
  by_cases hy : y < x ∧ y ≤ d.chunks.length
  case pos =>
    obtain ⟨s₁, hs₁, hst⟩ := hs.reads_frame h hP hy.left hy.right
    cases hs₁.symm.trans he
    exact ⟨_, by omega, .streaming hst⟩
  case neg =>
    rw [step_receiverReads_nil (hs.toReceiver.trans (wire_eq_nil (by omega)))] at he
    cases he

theorem of_ackSent (hs : d.Streaming P destPath m s x y acked fin u) {i : Nat}
    (he : s.step P d (.ackSent i) = some s') : ∃ m' < m, d.Stage P destPath m' s' := by
  by_cases hi : i = 0 ∧ y = d.chunks.length + 1 ∧ fin = false
  case pos =>
    obtain ⟨rfl, hy, rfl⟩ := hi
    have hl := hs.left
    simp only [Bool.not_false, Bool.toNat_true] at hl
    obtain ⟨s₁, hs₁, hst⟩ := hs.ackSent hy
    cases hs₁.symm.trans he
    exact ⟨_, by omega, .streaming hst⟩
  case neg =>
    have hn : i ≠ 0 ∨ y ≤ d.chunks.length ∨ fin := by
      have hy := hs.y_le
      by_contra hc
      simp only [not_or, not_not, Bool.not_eq_true] at hc
      exact hi ⟨hc.left, by omega, hc.right.right⟩
    rw [Exchange.step, receiverStep_eq_none (hs.received.step_ackSent_eq_none hn)] at he
    cases he

theorem step (h : d.Acceptable P destPath) (hP : P.Lawful) (hs : d.Streaming P destPath m s x y acked fin u)
    {e : ExchangeEvent} (he : s.step P d e = some s') : ∃ m' < m, d.Stage P destPath m' s' := by
  have hu := hs.sending
  cases e
  case offerFile =>
    rw [Exchange.step, senderStep_eq_none (offerFile_alone hu.transferId hs.sender)] at he
    cases he
  case offerSent =>
    have hn : (UploadState.alone u).step P (.offerSent d.transferId true) = none := by
      simp only [UploadState.step, UploadState.find?_alone hu.transferId, Option.bind_eq_bind, Option.bind_some,
        hu.offering, Bool.false_eq_true, if_false]
    rw [Exchange.step, senderStep_eq_none (hs.sender ▸ hn)] at he
    cases he
  case resume => exact hs.of_resume h hP he
  case senderReads => exact hs.of_senderReads h he
  case receiverReads => exact hs.of_receiverReads h hP he
  case decide i =>
    rw [Exchange.step, receiverStep_eq_none (hs.received.step_decide_eq_none i)] at he
    cases he
  case abortSent i =>
    rw [Exchange.step, receiverStep_eq_none (hs.received.step_abortSent_eq_none i)] at he
    cases he
  case ackSent => exact hs.of_ackSent he

-- As long as something is left, there is a step.
theorem progress (h : d.Acceptable P destPath) (hP : P.Lawful) (hs : d.Streaming P destPath m s x y acked fin u)
    (hm : 0 < m) : ∃ e, (s.step P d e).isSome := by
  have hl := hs.left
  have hy := hs.y_le
  by_cases hr : y < x ∧ y ≤ d.chunks.length
  case pos =>
    obtain ⟨s', he, -⟩ := hs.reads_frame h hP hr.left hr.right
    exact ⟨_, Option.isSome_iff_exists.mpr ⟨s', he⟩⟩
  by_cases hx : x < d.chunks.length + 2
  case pos =>
    obtain ⟨s', u', he, -⟩ := hs.resume h hP (by omega) (by omega)
    exact ⟨_, Option.isSome_iff_exists.mpr ⟨s', he⟩⟩
  have hy : y = d.chunks.length + 1 := by omega
  cases fin
  case false =>
    obtain ⟨s', he, -⟩ := hs.ackSent hy
    exact ⟨_, Option.isSome_iff_exists.mpr ⟨s', he⟩⟩
  case true =>
    cases acked
    case false =>
      obtain ⟨s', he, -⟩ := hs.reads_ack h hy
      exact ⟨_, Option.isSome_iff_exists.mpr ⟨s', he⟩⟩
    case true =>
      simp only [Bool.not_true, Bool.toNat_false] at hl
      obtain ⟨s', u', he, -⟩ := hs.resume h hP (by omega) fun _ => rfl
      exact ⟨_, Option.isSome_iff_exists.mpr ⟨s', he⟩⟩

end Streaming

-- Before the acceptance likewise

theorem Asking.step {k : Nat} {b : Bool} (h : d.Acceptable P destPath) (hP : P.Lawful)
    (hs : s.sender = .alone (d.offering P b)) (ha : d.Asking P destPath k s.receiver s.toReceiver s.toSender)
    {e : ExchangeEvent} (he : s.step P d e = some s') :
    ∃ m' < 2 * d.chunks.length + 7 + b.toNat + k, d.Stage P destPath m' s' := by
  cases e
  case offerFile =>
    rw [Exchange.step, senderStep_eq_none (offerFile_alone (offering_id P d) hs)] at he
    cases he
  case offerSent =>
    cases b
    case true =>
      obtain ⟨s₁, hs₁, hst⟩ := step_offerSent hs ha
      cases hs₁.symm.trans he
      exact ⟨_, by simp only [Bool.toNat_true]; omega, hst⟩
    case false =>
      have hn : (UploadState.alone (d.offering P false)).step P (.offerSent d.transferId true) = none := by
        rw [UploadState.step, UploadState.find?_alone (offering_id P d)]
        rfl
      rw [Exchange.step, senderStep_eq_none (hs ▸ hn)] at he
      cases he
  case resume i =>
    have hn : (UploadState.alone (d.offering P b)).step P (.resume d.transferId i Sending.turn) = none := by
      rw [UploadState.step, UploadState.find?_alone (offering_id P d)]
      rfl
    rw [Exchange.step, senderStep_eq_none (hs ▸ hn)] at he
    cases he
  case senderReads =>
    by_cases hk : k = 0
    case neg =>
      rw [step_senderReads_nil (ha.toSender_eq_nil hk)] at he
      cases he
    case pos =>
      subst hk
      cases b
      case true =>
        rw [step_senderReads_offering (isOffering_alone (offering_id P d) hs)] at he
        cases he
      case false =>
        obtain ⟨s₁, hs₁, hst⟩ := step_reads_accept h hP hs ha
        cases hs₁.symm.trans he
        exact ⟨_, Nat.lt_succ_self _, hst⟩
  case receiverReads =>
    by_cases hk : k = 2
    case neg =>
      rw [step_receiverReads_nil (ha.toReceiver_eq_nil hk)] at he
      cases he
    case pos =>
      subst hk
      obtain ⟨s₁, hs₁, hst⟩ := step_reads_offer h hP hs ha
      cases hs₁.symm.trans he
      exact ⟨_, Nat.lt_succ_self _, hst⟩
  case decide i =>
    by_cases hk : k = 1 ∧ i = 0
    case neg =>
      rw [Exchange.step, receiverStep_eq_none (ha.step_decide_eq_none (by omega))] at he
      cases he
    case pos =>
      obtain ⟨rfl, rfl⟩ := hk
      obtain ⟨s₁, hs₁, hst⟩ := step_accepts h hs ha
      cases hs₁.symm.trans he
      exact ⟨_, Nat.lt_succ_self _, hst⟩
  case abortSent i =>
    rw [Exchange.step, receiverStep_eq_none (ha.step_abortSent_eq_none i)] at he
    cases he
  case ackSent i =>
    rw [Exchange.step, receiverStep_eq_none (ha.step_ackSent_eq_none i)] at he
    cases he

theorem Asking.progress {k : Nat} {b : Bool} (h : d.Acceptable P destPath) (hP : P.Lawful)
    (hs : s.sender = .alone (d.offering P b)) (ha : d.Asking P destPath k s.receiver s.toReceiver s.toSender) :
    ∃ e, (s.step P d e).isSome := by
  cases b
  case true =>
    obtain ⟨s', he, -⟩ := step_offerSent hs ha
    exact ⟨_, Option.isSome_iff_exists.mpr ⟨s', he⟩⟩
  case false =>
    have hk := ha.le_two
    obtain rfl | rfl | rfl : k = 0 ∨ k = 1 ∨ k = 2 := by omega
    · obtain ⟨s', he, -⟩ := step_reads_accept h hP hs ha
      exact ⟨_, Option.isSome_iff_exists.mpr ⟨s', he⟩⟩
    · obtain ⟨s', he, -⟩ := step_accepts h hs ha
      exact ⟨_, Option.isSome_iff_exists.mpr ⟨s', he⟩⟩
    · obtain ⟨s', he, -⟩ := step_reads_offer h hP hs ha
      exact ⟨_, Option.isSome_iff_exists.mpr ⟨s', he⟩⟩

-- The first step
theorem step_start (h : d.Acceptable P destPath) (hP : P.Lawful) {e : ExchangeEvent}
    (he : Exchange.step P d { receiver := { fs := d.fs } } e = some s') :
    ∃ m' < 2 * d.chunks.length + 11, d.Stage P destPath m' s' := by
  cases e
  case offerFile =>
    obtain ⟨s₁, hs₁, hst⟩ := step_offerFile h hP
    cases hs₁.symm.trans he
    exact ⟨_, Nat.lt_succ_self _, hst⟩
  all_goals cases he

namespace Stage

variable (h : d.Acceptable P destPath) (hP : P.Lawful)
include h hP

theorem step (hs : d.Stage P destPath m s) {e : ExchangeEvent} (he : s.step P d e = some s') :
    ∃ m' < m, d.Stage P destPath m' s' := by
  cases hs
  case start hs hm =>
    subst hs hm
    exact step_start h hP he
  case offered hs ha hm =>
    subst hm
    exact ha.step h hP hs he
  case streaming hs => exact hs.step h hP he

theorem progress (hs : d.Stage P destPath m s) (hm : 0 < m) : ∃ e, (s.step P d e).isSome := by
  cases hs
  case start hs _ =>
    subst hs
    obtain ⟨s', he, -⟩ := step_offerFile h hP
    exact ⟨_, Option.isSome_iff_exists.mpr ⟨s', he⟩⟩
  case offered hs ha _ => exact ha.progress h hP hs
  case streaming hs => exact hs.progress h hP hm

theorem of_reachable (hs : (machine P d).Reachable s) : ∃ m, d.Stage P destPath m s := by
  induction hs
  case init hi => exact ⟨_, .start hi rfl⟩
  case step he hi =>
    obtain ⟨m, hm⟩ := hi
    obtain ⟨m', -, hm'⟩ := hm.step h hP he
    exact ⟨m', hm'⟩

-- What the receiver reads of the file it writes.
theorem accepts (hs : d.Stage P destPath m s) {p : Packet} {rest : Bytes}
    (hn : (nextPacket readExactly P).run s.toReceiver = .ok p rest)
    (hp : p.type? = some (.ofString "file_data")) :
    (∃ c ∈ d.chunks, p = c.packet d.transferId) ∧ s.receiver.accepts p := by
  have hnil : s.toReceiver ≠ [] := by
    intro hc
    rw [hc] at hn
    cases hn
  cases hs
  case start hs _ =>
    subst hs
    exact absurd rfl hnil
  case offered k b hs ha _ =>
    obtain rfl : k = 2 := not_not.mp fun hk => hnil (ha.toReceiver_eq_nil hk)
    obtain ⟨frame, he, hf⟩ := h.frame_offer hP
    have ho : (nextPacket readExactly P).run s.toReceiver = .ok (.json (d.offer P)) [] :=
      ha.toReceiver_eq ▸ nextPacket_bytes he hf
    cases ho.symm.trans hn
    exact absurd hp (by change ¬some (Text.ofString "file_offer") = _; decide)
  case streaming x y acked fin u hs =>
    have hy : y < x ∧ y ≤ d.chunks.length := by
      by_contra hc
      exact hnil (hs.toReceiver.trans (wire_eq_nil (by omega)))
    rw [hs.toReceiver] at hn
    rcases hy.right.lt_or_eq with hy' | rfl
    case inl =>
      rw [nextPacket_wire h hP hy.left (packets_chunk hy')] at hn
      cases hn
      exact ⟨⟨_, List.getElem_mem hy', rfl⟩, (hs.received.read_chunk hy').right.right⟩
    case inr =>
      rw [nextPacket_wire h hP hy.left packets_done] at hn
      cases hn
      exact absurd hp (by change ¬some (Text.ofString "file_done") = _; decide)

end Stage

end Delivery
