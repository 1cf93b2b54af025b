import Peerc.FileTransfer.Exchange
import Peerc.FileTransfer.Theorems.Receivers
import Peerc.FileTransfer.Wire

-- How far the two sides of an exchange have come

open Protocol Transfer TransferState FileSystem

namespace Transfer

theorem readLoop_bounds {chunkSize fuel off seq n : Nat} {rest : Bytes} (hs : seq ≤ off)
    (hn : off + rest.length ≤ n) : ∀ c ∈ readLoop chunkSize fuel rest off seq,
      c.sequence ≤ c.offset ∧ c.offset ≤ n ∧ c.data.length ≤ chunkSize := by
  induction fuel generalizing rest off seq
  case zero => exact nofun
  case succ fuel hi =>
    intro c hc
    simp only [readLoop] at hc
    split at hc
    case isTrue => cases hc
    case isFalse hne =>
      have hl : 0 < (rest.take chunkSize).length := List.length_pos_iff.mpr hne
      obtain rfl | hc := List.mem_cons.mp hc
      · exact ⟨hs, (Nat.le_add_right _ _).trans hn, List.length_take_le _ _⟩
      · refine hi (by omega) ?_ c hc
        rw [List.length_take, List.length_drop]
        omega

end Transfer

namespace Delivery

variable (P : Primitives) (d : Delivery)

-- The bytes that a file system has for a name
def nameMax : Nat := 255

-- The file can be offered and received under the name. A surrogate in a name stands for one byte.
structure Acceptable (destPath : Str) : Prop where
  uuid     : d.uuid.length = 16
  size     : (d.content.length : Int) ≤ maxIncomingFileSize
  space    : checkDiskSpace d.free d.content.length
  dest     : resolveSafeDestPath d.fs d.downloadsDir d.filename.val = some destPath
  staging  : replacedSize (getPartPath destPath).basename ≤ nameMax
  fits     : Handshake.Fits P (d.upload.offer P d.offeredAt)
  offered  : ¬d.offeredAt.isNaN
  answered : ¬d.answeredAt.isNaN

-- The messages

def offer : Json :=
  d.upload.offer P d.offeredAt

def done : Json :=
  makeFileDone d.transferId (d.upload.checksum P)

def accept : Json :=
  makeFileAccept d.transferId d.answeredAt

def ack : Json :=
  makeFileCompleteAck d.transferId true (.ofString "")

def chunks : List Chunk :=
  d.upload.chunks

-- What is written after the offer, and what is read of it

def payload (c : Chunk) : Bytes :=
  fileDataPayload d.uuid c.sequence c.offset c.data

def outs : List Written :=
  d.chunks.map (fun c => .chunk c (d.payload c)) ++ [.done (d.done P)]

def packets : List Packet :=
  d.chunks.map (·.packet d.transferId) ++ [.json (d.done P)]

variable {P d} {destPath : Str}

theorem outs_length : (d.outs P).length = d.chunks.length + 1 := by
  simp [outs]

-- Nothing is written after `file_done`.
theorem take_outs {x : Nat} (hx : d.chunks.length + 1 ≤ x) : (d.outs P).take x = d.outs P :=
  List.take_of_length_le (by rwa [outs_length])

theorem packets_chunk {y : Nat} (hy : y < d.chunks.length) :
    (d.packets P)[y]? = some (d.chunks[y].packet d.transferId) := by
  rw [packets, List.getElem?_append_left (by rwa [List.length_map]), List.getElem?_map,
    List.getElem?_eq_getElem hy]
  rfl

theorem packets_done : (d.packets P)[d.chunks.length]? = some (.json (d.done P)) := by
  simp [packets]

theorem genuine_chunks : Genuine d.content 0 0 d.chunks :=
  readLoop_genuine (by decide) (Nat.zero_le _) (Nat.le_refl _)

namespace Acceptable

variable (h : d.Acceptable P destPath)
include h

theorem transferId_length : d.transferId.val.length ≤ 1000 :=
  uuidText_length_le h.uuid

theorem filename_ne_nil : d.filename.val ≠ [] := by
  intro hn
  have hd := h.dest
  rw [hn] at hd
  cases hd

theorem chunk_bounds {c : Chunk} (hc : c ∈ d.chunks) :
    c.sequence < 256 ^ 4 ∧ c.offset < 256 ^ 8 ∧ headerSize + c.data.length ≤ maxMessageSize := by
  have hz := h.size
  have hb : c.sequence ≤ c.offset ∧ c.offset ≤ d.content.length ∧ c.data.length ≤ uploadChunkSize :=
    readLoop_bounds (Nat.le_refl 0) (Nat.zero_add _).le c hc
  simp only [maxIncomingFileSize, uploadChunkSize, headerSize, maxMessageSize] at hz hb ⊢
  omega

-- Each message can be written, and is read back.

theorem encode_chunk {c : Chunk} (hc : c ∈ d.chunks) :
    encodeFileData d.transferId.val c.sequence c.offset c.data = .ok (d.payload c) := by
  obtain ⟨hs, ho, -⟩ := h.chunk_bounds hc
  exact encodeFileData_eq_ok h.uuid hs ho

theorem frame_chunk {c : Chunk} (hc : c ∈ d.chunks) :
    ∃ frame, encodeBinaryFrame (d.payload c) = .ok frame ∧ IsFrame P frame (c.packet d.transferId) := by
  obtain ⟨hs, ho, hl⟩ := h.chunk_bounds hc
  exact isFrame_chunk h.uuid hs ho hl

theorem frame_ack : ∃ frame, encodeFrame P d.ack = .ok frame ∧ IsFrame P frame (.json d.ack) := by
  have hd : (Text.ofString "").val.length ≤ 1000 := by decide
  obtain ⟨frame, he⟩ := encodeFrame_of_fits (fits_fileCompleteAck (P := P) h.transferId_length hd)
  exact ⟨frame, he, isFrame_encodeFrame makeFileCompleteAck_wellFormed rfl he⟩

variable (hP : P.Lawful)
include hP

theorem frame_offer : ∃ frame, encodeFrame P (d.offer P) = .ok frame ∧ IsFrame P frame (.json (d.offer P)) := by
  have hc : (d.upload.checksum P).val ≠ [] := Bytes.hexText_ne_nil_of_length (hP.sha256_length _)
  obtain ⟨frame, he⟩ := encodeFrame_of_fits h.fits
  exact ⟨frame, he, isFrame_encodeFrame (makeFileOffer_wellFormed h.offered)
    (validate_makeFileOffer h.filename_ne_nil hc) he⟩

theorem frame_accept : ∃ frame, encodeFrame P d.accept = .ok frame ∧ IsFrame P frame (.json d.accept) := by
  obtain ⟨frame, he⟩ := encodeFrame_of_fits (fits_fileAccept hP h.transferId_length d.answeredAt)
  exact ⟨frame, he, isFrame_encodeFrame (makeFileAccept_wellFormed h.answered) rfl he⟩

theorem frame_done : ∃ frame, encodeFrame P (d.done P) = .ok frame ∧ IsFrame P frame (.json (d.done P)) := by
  have hc : (d.upload.checksum P).val.length ≤ 1000 := by
    change ((P.sha256 d.content).hex).length ≤ 1000
    rw [Bytes.hex_length, hP.sha256_length]
    decide
  obtain ⟨frame, he⟩ := encodeFrame_of_fits (fits_fileDone (P := P) h.transferId_length hc)
  exact ⟨frame, he, isFrame_encodeFrame makeFileDone_wellFormed rfl he⟩

theorem frames_outs :
    List.Forall₂ (fun w p => IsFrame P (Exchange.bytes P w.frame) p) (d.outs P) (d.packets P) := by
  refine List.rel_append ?_ (.cons ?_ .nil)
  · rw [List.forall₂_map_left_iff, List.forall₂_map_right_iff, List.forall₂_same]
    intro c hc
    obtain ⟨frame, he, hf⟩ := h.frame_chunk hc
    exact Exchange.bytes_of_encode (f := .binary (d.payload c)) he ▸ hf
  · obtain ⟨frame, he, hf⟩ := h.frame_done hP
    exact Exchange.bytes_of_encode (f := .json (d.done P)) he ▸ hf

end Acceptable

-- The bytes of what has been written and not read, when `x` frames have been written and `y` of them read
def wire (P : Primitives) (d : Delivery) (x y : Nat) : Bytes :=
  (((d.outs P).take x).drop y).flatMap (Exchange.bytes P ·.frame)

theorem wire_succ {x y : Nat} (hy : y ≤ x) :
    d.wire P (x + 1) y = d.wire P x y ++ (d.outs P)[x]?.toList.flatMap (Exchange.bytes P ·.frame) := by
  have ht : ((d.outs P).take (x + 1)).drop y = ((d.outs P).take x).drop y ++ (d.outs P)[x]?.toList := by
    rw [List.take_add_one]
    rcases Nat.lt_or_ge x (d.outs P).length with hx | hx
    · exact List.drop_append_of_le_length (by rw [List.length_take]; omega)
    · simp [List.getElem?_eq_none hx]
  rw [wire, ht, List.flatMap_append, wire]

theorem nextPacket_wire (h : d.Acceptable P destPath) (hP : P.Lawful) {x y : Nat} (hy : y < x) {p : Packet}
    (hp : (d.packets P)[y]? = some p) :
    (nextPacket readExactly P).run (d.wire P x y) = .ok p (d.wire P x (y + 1)) := by
  obtain ⟨hl, hf⟩ := List.forall₂_iff_zip.mp (h.frames_outs hP)
  obtain ⟨hlt, -⟩ := List.getElem?_eq_some_iff.mp hp
  obtain ⟨w, hw⟩ : ∃ w, (d.outs P)[y]? = some w := ⟨_, List.getElem?_eq_getElem (hl ▸ hlt)⟩
  have hz : ((d.outs P).zip (d.packets P))[y]? = some (w, p) := List.getElem?_zip_eq_some.mpr ⟨hw, hp⟩
  have ht : ((d.outs P).take x)[y]? = some w := by
    rw [List.getElem?_take, if_pos hy, hw]
  rw [wire, List.drop_eq_getElem?_toList_append, ht]
  exact nextPacket_frame (hf (List.mem_of_getElem? hz)) _

theorem wire_eq_nil {x y : Nat} (hy : x ≤ y ∨ d.chunks.length < y) : d.wire P x y = [] := by
  have hd : ((d.outs P).take x).drop y = [] := by
    rw [List.drop_eq_nil_iff, List.length_take, outs_length]
    omega
  rw [wire, hd]
  rfl

-- The sender, when it has come to the frame `x` after the offer

def tasks (d : Delivery) (x : Nat) : List SendPhase :=
  if x = 0 then [.created]
  else if x ≤ d.chunks.length then [.sendingChunk (d.chunks.drop x)]
  else if x = d.chunks.length + 1 then [.sendingDone]
  else if x = d.chunks.length + 2 then [.awaitingAck]
  else []

theorem tasks_eq_singleton {x : Nat} (hx : x < d.chunks.length + 3) : ∃ phase, d.tasks x = [phase] := by
  unfold tasks
  split
  · exact ⟨_, rfl⟩
  split
  · exact ⟨_, rfl⟩
  split
  · exact ⟨_, rfl⟩
  split
  · exact ⟨_, rfl⟩
  · omega

theorem tasks_chunk {x : Nat} (hx : x < d.chunks.length) :
    d.tasks (x + 1) = [.sendingChunk (d.chunks.drop (x + 1))] := by
  rw [tasks, if_neg (Nat.succ_ne_zero x), if_pos (Nat.succ_le_of_lt hx)]

theorem tasks_done : d.tasks (d.chunks.length + 1) = [.sendingDone] := by
  rw [tasks, if_neg (by omega), if_neg (by omega), if_pos rfl]

theorem tasks_awaitingAck : d.tasks (d.chunks.length + 2) = [.awaitingAck] := by
  rw [tasks, if_neg (by omega), if_neg (by omega), if_neg (by omega), if_pos rfl]

theorem tasks_eq_nil {x : Nat} (hx : d.chunks.length + 3 ≤ x) : d.tasks x = [] := by
  rw [tasks, if_neg (by omega), if_neg (by omega), if_neg (by omega), if_neg (by omega)]

structure Sending (P : Primitives) (d : Delivery) (x : Nat) (acked : Bool) (u : Upload) : Prop where
  transferId : u.transferId = d.transferId
  filepath   : u.filepath = d.filepath
  content    : u.content = d.content
  offering   : u.offering = false
  tasks      : u.tasks = d.tasks x
  written    : u.written = .offer (d.offer P) :: (d.outs P).take x
  ackEvent   : u.ackEvent = acked
  ackSuccess : acked → u.ackSuccess
  registered : x < d.chunks.length + 3 → u.registered
  reports    : x < d.chunks.length + 3 → u.reports = []

-- The sender has reported success.
structure Sent (d : Delivery) (u : Upload) : Prop where
  status  : u.status = .done
  reports : u.reports = [⟨true, some d.filepath, none⟩]

namespace Sending

variable {x : Nat} {acked : Bool} {u u' : Upload}

-- A turn in which nothing fails
abbrev turn : Turn := ⟨true, false, true⟩

theorem resume_eq_proceed (hs : d.Sending P x acked u) (hx : x ≤ d.chunks.length) :
    u.resume P 0 turn = some (u.proceed P 0 true (d.chunks.drop x)) := by
  have hc : u.chunks = d.chunks := by
    rw [Upload.chunks, hs.content]
    rfl
  rw [Upload.resume, hs.tasks, Delivery.tasks]
  by_cases h₀ : x = 0
  case pos =>
    rw [if_pos h₀, h₀, List.drop_zero, ← hc]
    rfl
  case neg =>
    rw [if_neg h₀, if_pos hx]
    rfl

-- What a step adds to the frames that have been written
theorem written_drop (hs : d.Sending P x acked u) (hs' : d.Sending P (x + 1) acked u') :
    u'.written.drop u.written.length = (d.outs P)[x]?.toList := by
  rw [hs.written, hs'.written, List.take_add_one, List.length_cons, List.drop_succ_cons, List.drop_left]

-- The only task goes on to its next phase.
theorem set_tasks (hs : d.Sending P x acked u) (hx : x < d.chunks.length + 3) {phase : SendPhase}
    (ht : d.tasks (x + 1) = [phase]) : u.tasks.set 0 phase = d.tasks (x + 1) := by
  obtain ⟨phase', hp⟩ := tasks_eq_singleton hx
  rw [hs.tasks, hp, ht]
  rfl

-- A frame is written, and the task waits for it to be sent.
theorem write (hs : d.Sending P x acked u) {w : Written} {phase : SendPhase}
    (hw : (d.outs P)[x]? = some w) (ht : d.tasks (x + 1) = [phase]) :
    d.Sending P (x + 1) acked ((u.write w).suspend 0 phase) := by
  obtain ⟨hlt, -⟩ := List.getElem?_eq_some_iff.mp hw
  rw [outs_length] at hlt
  have hx : x < d.chunks.length + 3 := by omega
  exact {
    hs with
    tasks      := hs.set_tasks hx ht
    written    := by
      rw [List.take_add_one, hw, ← List.cons_append, ← hs.written]
      rfl
    registered := fun _ => hs.registered hx
    reports    := fun _ => hs.reports hx
  }

theorem awaitAck (hs : d.Sending P (d.chunks.length + 1) acked u) :
    d.Sending P (d.chunks.length + 2) acked (u.awaitAck 0) := by
  have hx : d.chunks.length + 1 < d.chunks.length + 3 := by omega
  exact {
    hs with
    tasks      := hs.set_tasks hx tasks_awaitingAck
    written    := by
      have hw := hs.written
      rwa [take_outs (Nat.le_refl _), ← take_outs (Nat.le_succ _)] at hw
    registered := fun _ => hs.registered hx
    reports    := fun _ => hs.reports hx
  }

theorem complete (hs : d.Sending P (d.chunks.length + 2) true u) :
    d.Sending P (d.chunks.length + 3) true (u.complete 0 u.ackSuccess) ∧
      d.Sent (u.complete 0 u.ackSuccess) := by
  have hx : d.chunks.length + 2 < d.chunks.length + 3 := by omega
  rw [hs.ackSuccess rfl]
  refine ⟨?_, rfl, ?_⟩
  · exact {
      hs with
      tasks      := by
        have ht := hs.tasks
        rw [tasks_awaitingAck] at ht
        rw [tasks_eq_nil (Nat.le_refl _)]
        exact congrArg (List.eraseIdx · 0) ht
      written    := by
        have hw := hs.written
        rwa [take_outs (by omega), ← take_outs (P := P) (x := d.chunks.length + 3) (by omega)] at hw
      registered := fun hn => absurd hn (Nat.lt_irrefl _)
      reports    := fun hn => absurd hn (Nat.lt_irrefl _)
    }
  · change u.reports ++ [⟨true, some u.filepath, none⟩] = _
    rw [hs.reports hx, hs.filepath]
    rfl

-- With the acknowledgement, the sender goes on; without it, the last step waits.

theorem acknowledge (hs : d.Sending P x acked u) : d.Sending P x true (u.handleCompleteAck true) :=
  { hs with ackEvent := rfl, ackSuccess := fun _ => rfl }

theorem resume_chunk (h : d.Acceptable P destPath) (hs : d.Sending P x acked u) (hx : x < d.chunks.length) :
    ∃ u', u.resume P 0 turn = some u' ∧ d.Sending P (x + 1) acked u' := by
  have hm : d.chunks[x] ∈ d.chunks := List.getElem_mem hx
  obtain ⟨frame, hf, -⟩ := h.frame_chunk hm
  have hw : (d.outs P)[x]? = some (.chunk d.chunks[x] (d.payload d.chunks[x])) := by
    rw [outs, List.getElem?_append_left (by rwa [List.length_map]), List.getElem?_map,
      List.getElem?_eq_getElem hx]
    rfl
  have he : encodeFileData u.transferId.val d.chunks[x].sequence d.chunks[x].offset d.chunks[x].data = _ :=
    hs.transferId ▸ h.encode_chunk hm
  refine ⟨_, hs.resume_eq_proceed hx.le, ?_⟩
  simp only [List.drop_eq_getElem_cons hx, Upload.proceed, he, hf, not_true_eq_false, if_false]
  exact hs.write hw (tasks_chunk hx)

theorem resume_done (h : d.Acceptable P destPath) (hP : P.Lawful)
    (hs : d.Sending P d.chunks.length acked u) :
    ∃ u', u.resume P 0 turn = some u' ∧ d.Sending P (d.chunks.length + 1) acked u' := by
  obtain ⟨frame, hf, -⟩ := h.frame_done hP
  have hd : makeFileDone u.transferId (u.checksum P) = d.done P := by
    rw [Upload.checksum, hs.content, hs.transferId]
    rfl
  have hw : (d.outs P)[d.chunks.length]? = some (.done (d.done P)) := by
    simp [outs]
  refine ⟨_, hs.resume_eq_proceed (Nat.le_refl _), ?_⟩
  simp only [List.drop_length, Upload.proceed, hd, hf, not_true_eq_false, if_false]
  exact hs.write hw tasks_done

theorem resume_lt (h : d.Acceptable P destPath) (hP : P.Lawful) (hs : d.Sending P x acked u)
    (hx : x < d.chunks.length + 2) :
    ∃ u', u.resume P 0 turn = some u' ∧ d.Sending P (x + 1) acked u' := by
  obtain hx | rfl | rfl : x < d.chunks.length ∨ x = d.chunks.length ∨ x = d.chunks.length + 1 := by omega
  · exact hs.resume_chunk h hx
  · exact hs.resume_done h hP
  · refine ⟨u.awaitAck 0, ?_, hs.awaitAck⟩
    rw [Upload.resume, hs.tasks, tasks_done]
    rfl

theorem resume_awaitingAck (hs : d.Sending P (d.chunks.length + 2) acked u) :
    u.resume P 0 turn = if acked then some (u.complete 0 u.ackSuccess) else none := by
  rw [Upload.resume, hs.tasks, tasks_awaitingAck, ← hs.ackEvent]
  rfl

-- There is no other task.
theorem resume_eq_none (hs : d.Sending P x acked u) {i : Nat} (hi : i ≠ 0 ∨ d.chunks.length + 3 ≤ x) :
    u.resume P i turn = none := by
  have ht : u.tasks[i]? = none := by
    rw [hs.tasks, List.getElem?_eq_none_iff]
    rcases Nat.lt_or_ge x (d.chunks.length + 3) with hx | hx
    · obtain ⟨phase, hp⟩ := tasks_eq_singleton hx
      rw [hp, List.length_singleton]
      omega
    · rw [tasks_eq_nil hx]
      exact Nat.zero_le _
  rw [Upload.resume, ht]

end Sending

-- The receiver, when it has read `y` of the frames after the offer

def receiver (P : Primitives) (d : Delivery) (destPath : Str) : FileReceiver where
  size             := d.content.length
  expectedChecksum := (d.upload.checksum P).val
  destPath         := destPath
  chunkSize        := uploadChunkSize

-- The transfer has the first `y` chunks.
structure Partial (P : Primitives) (d : Delivery) (destPath : Str) (y : Nat) (fs : FileSystem Str)
    (t : IncomingTransfer) : Prop extends Receiving (d.receiver P destPath) fs t where
  id       : t.transferId = .str d.transferId
  index    : t.expectedChunkIndex = y
  genuine  : Genuine d.content t.bytesReceived y (d.chunks.drop y)
  accepted : t.accepted = d.content.take t.bytesReceived

inductive Received (P : Primitives) (d : Delivery) (destPath : Str) : (y : Nat) → (fin : Bool) → TransferState → Prop
  | receiving {y : Nat} {fs : FileSystem Str} {t : IncomingTransfer} (le : y ≤ d.chunks.length)
      (chunks : d.Partial P destPath y fs t) : Received P d destPath y false (alone fs t)
  | verified {fs : FileSystem Str} {t : IncomingTransfer} (receiving : Receiving (d.receiver P destPath) fs t)
      (accepted : t.accepted = d.content) :
    Received P d destPath (d.chunks.length + 1) false { fs, verified := [(t, true)] }
  | completed {fs : FileSystem Str} {completion : Completion} (success : completion.success)
      (content : fs.read? destPath = some d.content) (part : fs.entry (getPartPath destPath) = none) :
    Received P d destPath (d.chunks.length + 1) true { fs, completions := [completion] }

namespace Partial

variable {y : Nat} {fs : FileSystem Str} {t : IncomingTransfer}

theorem begun (h : d.Acceptable P destPath) :
    d.Partial P destPath 0 (d.fs.create (getPartPath destPath))
      (TransferState.begun d.fs d.senderKey d.transferId (d.upload.checksum P) d.content.length destPath) where
  toReceiving :=
    have ⟨hn, hp⟩ := resolveSafeDestPath_free h.dest
    receiving_begun hn hp
  id       := rfl
  index    := rfl
  genuine  := genuine_chunks
  accepted := rfl

-- The next chunk is expected, and what is accepted grows by it.

theorem next (ht : d.Partial P destPath y fs t) (hy : y < d.chunks.length) :
    t.Expects d.chunks[y] ∧
      d.Partial P destPath (y + 1) (fs.append t.fileHandle d.chunks[y].data) (t.advance d.chunks[y].data) := by
  have hg := ht.genuine
  rw [List.drop_eq_getElem_cons hy, genuine_cons] at hg
  obtain ⟨hs, ho, ⟨rest, hr⟩, hg⟩ := hg
  refine ⟨⟨hs.trans ht.index.symm, ho, ?_⟩, ?_⟩
  · rw [ht.size]
    exact_mod_cast hg.le
  · exact {
      ht.toReceiving.advance _ with
      id       := ht.id
      index    := congrArg (· + 1) ht.index
      genuine  := hg
      accepted := by
        change t.accepted ++ _ = d.content.take (t.bytesReceived + _)
        rw [List.take_add, ← ht.accepted, ← hr, List.take_left]
    }

theorem accepted_eq (ht : d.Partial P destPath d.chunks.length fs t) :
    t.bytesReceived = d.content.length ∧ t.accepted = d.content := by
  have hg := ht.genuine
  have hl := hg.le
  have hd := hg.drop_eq
  rw [List.drop_length] at hd
  have hb : d.content.length ≤ t.bytesReceived := List.drop_eq_nil_iff.mp hd
  exact ⟨by omega, by rw [ht.accepted, List.take_of_length_le hb]⟩

theorem verifies (ht : d.Partial P destPath d.chunks.length fs t) :
    Verifies t (P.sha256 t.accepted).hex := by
  obtain ⟨hb, ha⟩ := ht.accepted_eq
  exact ht.verifies_iff.mpr ⟨ha ▸ rfl, hb⟩

end Partial

namespace Received

variable {y : Nat} {fin : Bool} {s s' : TransferState}

-- What a step of the receiver sends
abbrev sends (P : Primitives) (d : Delivery) (s : TransferState) (e : TransferEvent) : List Json :=
  s.replies P d.downloadsDir d.answeredAt e

theorem read_chunk (hs : d.Received P destPath y fin s) (hy : y < d.chunks.length) :
    d.Received P destPath (y + 1) fin
        (s.after (dispatch P d.downloadsDir d.free d.senderKey (d.chunks[y].packet d.transferId))) ∧
      sends P d s (.receive d.senderKey d.free (d.chunks[y].packet d.transferId)) = [] ∧
      s.accepts (d.chunks[y].packet d.transferId) := by
  cases hs
  case receiving fs t hl ht =>
    obtain ⟨he, hn⟩ := ht.next hy
    have ho : ¬(d.chunks[y].packet d.transferId).type? = some (.ofString "file_offer") := by
      change ¬some (Text.ofString "file_data") = _
      decide
    rw [sends, replies, rejections, if_neg ho, after_chunk_of_expects ht.id he]
    exact ⟨.receiving hy hn, rfl, (Receiving.accepts_iff ht.id).mpr he⟩
  all_goals omega

theorem read_done (hs : d.Received P destPath d.chunks.length fin s) :
    d.Received P destPath (d.chunks.length + 1) fin
        (s.after (dispatch P d.downloadsDir d.free d.senderKey (.json (d.done P)))) ∧
      sends P d s (.receive d.senderKey d.free (.json (d.done P))) = [d.ack] := by
  generalize hn : d.chunks.length = y at hs
  cases hs
  case receiving fs t hl ht =>
    subst hn
    have ho : ¬(Packet.json (d.done P)).type? = some (.ofString "file_offer") := by
      change ¬some (Text.ofString "file_done") = _
      decide
    have ha : (alone fs t).after (dispatch P d.downloadsDir d.free d.senderKey (.json (d.done P))) =
        { fs, verified := [(t, true)] } := by
      rw [done, after_done ht.id ht.read?, decide_eq_true ht.verifies]
    rw [sends, replies, rejections, if_neg ho, ha]
    refine ⟨.verified ht.toReceiving ht.accepted_eq.right, ?_⟩
    simp [acknowledgements, alone, IncomingTransfer.id?, ht.id, ack]
  all_goals omega

-- The file gets its name when the acknowledgement has been sent.
theorem ackSent (hs : d.Received P destPath (d.chunks.length + 1) false s) :
    ∃ s', s.step P d.downloadsDir (.ackSent 0) = some s' ∧
      d.Received P destPath (d.chunks.length + 1) true s' := by
  generalize hn : d.chunks.length + 1 = y at hs
  cases hs
  case receiving => omega
  case verified fs t hr ha =>
    have hf : fs.isFile t.partPath := isFile_iff.mpr ⟨_, hr.inode⟩
    obtain ⟨fs', hm⟩ := replace_of_isFile hf (by rw [hr.vacant]; exact nofun)
    have hz : finalizePartFile fs t.partPath t.destPath = .ok fs' := by
      simp only [finalizePartFile, hf, not_true_eq_false, if_false, hm]
      rfl
    have he : TransferState.step P d.downloadsDir { fs, verified := [(t, true)] } (.ackSent 0) =
        some (TransferState.finalized { fs } t fs') := by
      simp only [TransferState.step, List.getElem?_cons_zero, Option.bind_eq_bind, Option.bind_some, after,
        run_resumeDone_success, hz]
      rfl
    have ht : t.destPath = destPath := hr.dest
    have hd : t.partPath ≠ destPath := ht ▸ getPartPath_ne t.destPath
    rw [ht] at hm
    have hc : fs'.read? destPath = some d.content := by
      rw [read?_replace hd hm, hr.read?, ha]
    have hp : fs'.entry (getPartPath destPath) = none := by
      have hp := (replace_eq_some hd hm).right.right.left
      rwa [hr.partPath] at hp
    exact ⟨_, he, .completed rfl hc hp⟩

theorem of_completed (hs : d.Received P destPath y true s) :
    s.completions.map (·.success) = [true] ∧ s.fs.read? destPath = some d.content ∧
      s.fs.entry (getPartPath destPath) = none := by
  cases hs
  case completed success content part => exact ⟨congrArg (fun b => [b]) success, content, part⟩

-- No other handler waits.

theorem step_decide_eq_none (hs : d.Received P destPath y fin s) (i : Nat) :
    s.step P d.downloadsDir (.decide i true) = none := by
  cases hs <;> rfl

theorem step_abortSent_eq_none (hs : d.Received P destPath y fin s) (i : Nat) :
    s.step P d.downloadsDir (.abortSent i) = none := by
  cases hs <;> rfl

theorem step_ackSent_eq_none (hs : d.Received P destPath y fin s) {i : Nat}
    (hi : i ≠ 0 ∨ y ≤ d.chunks.length ∨ fin) : s.step P d.downloadsDir (.ackSent i) = none := by
  cases hs
  case verified fs t hr ha =>
    obtain hi | hi | hi := hi
    · have hn : [(t, true)][i]? = none := List.getElem?_eq_none (Nat.pos_of_ne_zero hi)
      rw [TransferState.step, hn]
      rfl
    · omega
    · cases hi
  all_goals rfl

end Received

end Delivery
