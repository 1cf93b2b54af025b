import Peerc.FileTransfer.Effect
import Peerc.Transfer.Sender

-- A session that receives one file

open Protocol Transfer

namespace IncomingTransfer

variable {t : IncomingTransfer} {c : Chunk} {transferId : Text}

-- The transfer after a chunk has been written
def advance (t : IncomingTransfer) (data : Bytes) : IncomingTransfer :=
  { t with
    bytesReceived      := t.bytesReceived + data.length
    expectedChunkIndex := t.expectedChunkIndex + 1
    accepted           := t.accepted ++ data }

structure Expects (t : IncomingTransfer) (c : Chunk) : Prop where
  sequence : c.sequence = t.expectedChunkIndex
  offset   : c.offset = t.bytesReceived
  size     : (t.bytesReceived + c.data.length : Int) ≤ t.size

end IncomingTransfer

namespace Transfer.Chunk

-- What `_read_loop` makes of the frame with the chunk
def packet (c : Chunk) (transferId : Text) : Packet :=
  .fileData transferId c.sequence c.offset c.data

end Transfer.Chunk

namespace TransferState

variable {P : Primitives} {downloadsDir addrKey : Str} {free : Option Nat} {fs fs' : FileSystem Str}
  {t : IncomingTransfer} {c : Chunk} {transferId : Text}

-- The transfer is the only one, and no handler waits.
def alone (fs : FileSystem Str) (t : IncomingTransfer) : TransferState :=
  { fs, incoming := .replace .empty t }

theorem equalsInt_natCast {m n : Nat} : (Json.int m).equalsInt n ↔ m = n := by
  simp [Json.equalsInt, Json.key?]

theorem checkChunk_packet :
    checkChunk t (c.packet transferId) =
      if c.sequence ≠ t.expectedChunkIndex ∨ c.offset ≠ t.bytesReceived then
        .ok (.abort "out-of-order chunk")
      else if (t.bytesReceived + c.data.length : Int) > t.size then .ok (.abort "declared size exceeded")
      else .ok (.write c.data) := by
  change (if ¬(Json.int c.sequence).equalsInt t.expectedChunkIndex ∨
      ¬(Json.int c.offset).equalsInt t.bytesReceived then _ else _) = _
  simp only [equalsInt_natCast, ne_eq]
  rfl

theorem checkChunk_of_expects (h : t.Expects c) :
    checkChunk t (c.packet transferId) = .ok (.write c.data) := by
  have hn : ¬(c.sequence ≠ t.expectedChunkIndex ∨ c.offset ≠ t.bytesReceived) :=
    not_or.mpr ⟨not_not.mpr h.sequence, not_not.mpr h.offset⟩
  rw [checkChunk_packet, if_neg hn, if_neg h.size.not_gt]

theorem checkChunk_of_not_expects (h : ¬t.Expects c) :
    ∃ reason, checkChunk t (c.packet transferId) = .ok (.abort reason) := by
  rw [checkChunk_packet]
  split
  case isTrue => exact ⟨_, rfl⟩
  case isFalse hn =>
    obtain ⟨hs, ho⟩ := not_or.mp hn
    refine ⟨_, if_pos (Int.not_le.mp fun hl => h ?_)⟩
    exact ⟨not_not.mp hs, not_not.mp ho, hl⟩

-- The table with one row

theorem find?_alone : (alone fs t).incoming.find? t.transferId = some t := by
  rw [alone, Table.find?_replace, if_pos rfl]

theorem replace_alone {t' : IncomingTransfer} (h : t'.transferId = t.transferId) :
    { alone fs t with fs := fs', incoming := (alone fs t).incoming.replace t' } = alone fs' t' := by
  have hr : (alone fs t).incoming.replace t' = .replace .empty t' := Table.replace_replace_empty h
  rw [hr]
  rfl

theorem erase_alone : (alone fs t).incoming.erase t.transferId = .empty :=
  Table.erase_replace_empty

theorem incomingOf?_alone {p : Packet} (hp : p.key? "transfer_id" = some t.transferId) :
    (alone fs t).incomingOf? p = some t := by
  rw [incomingOf?, hp]
  show (alone fs t).incoming.find? t.transferId = some t
  exact find?_alone

-- The steps from the offer to the end

section

variable {filename senderId senderName checksum : Text} {size : Nat} {now : Double} {destPath : Str}

-- The offer as it waits for the user
def offered (fs : FileSystem Str) (addrKey : Str) (transferId checksum : Text) (size : Nat)
    (destPath : Str) : Offer where
  transferId := .str transferId
  addrKey    := addrKey
  size       := size
  checksum   := some checksum
  destPath   := destPath
  offeredAt  := fs.fresh

-- The transfer that it becomes
def begun (fs : FileSystem Str) (addrKey : Str) (transferId checksum : Text) (size : Nat)
    (destPath : Str) : IncomingTransfer :=
  (offered fs addrKey transferId checksum size destPath).transfer (.str transferId) fs.fresh

theorem considerOffer_message :
    considerOffer downloadsDir free addrKey fs
      (.json (makeFileOffer transferId senderId senderName filename size checksum now)) =
        if (size : Int) > maxIncomingFileSize then .ok none
        else if ¬checkDiskSpace free size then .ok none
        else match resolveSafeDestPath fs downloadsDir filename.val with
          | some destPath => .ok (some (offered fs addrKey transferId checksum size destPath))
          | none          =>
            if (safeName? filename.val).isSome then .error (.valueError [.exc "ValueError"]) else .ok none := rfl

theorem considerOffer_of_fits (hs : (size : Int) ≤ maxIncomingFileSize) (hf : checkDiskSpace free size)
    (hd : resolveSafeDestPath fs downloadsDir filename.val = some destPath) :
    considerOffer downloadsDir free addrKey fs
      (.json (makeFileOffer transferId senderId senderName filename size checksum now)) =
        .ok (some (offered fs addrKey transferId checksum size destPath)) := by
  rw [considerOffer_message, if_neg hs.not_gt, if_neg (not_not.mpr hf), hd]

theorem after_offer (hs : (size : Int) ≤ maxIncomingFileSize) (hf : checkDiskSpace free size)
    (hd : resolveSafeDestPath fs downloadsDir filename.val = some destPath) :
    TransferState.after { fs } (dispatch P downloadsDir free addrKey
      (.json (makeFileOffer transferId senderId senderName filename size checksum now))) =
      { fs, offers := [offered fs addrKey transferId checksum size destPath] } := by
  change TransferState.after { fs } (handleOffer downloadsDir free addrKey _) = _
  rw [after, run_handleOffer, considerOffer_of_fits hs hf hd]
  rfl

theorem step_decide (hp : fs.entry (getPartPath destPath) = none) :
    step P downloadsDir { fs, offers := [offered fs addrKey transferId checksum size destPath] }
        (.decide 0 true) =
      some (alone (fs.create (getPartPath destPath)) (begun fs addrKey transferId checksum size destPath)) := by
  have ho := FileSystem.openWrite_of_none hp
  simp only [step, List.getElem?_cons_zero, Option.bind_eq_bind, Option.bind_some, after,
    run_resumeOffer_accept, offered, FileSystem.remove_of_none hp, ho]
  rfl

end

variable (hk : t.transferId = .str transferId)
include hk

theorem after_chunk_of_expects (h : t.Expects c) :
    (alone fs t).after (dispatch P downloadsDir free addrKey (c.packet transferId)) =
      alone (fs.append t.fileHandle c.data) (t.advance c.data) := by
  change (alone fs t).after (handleChunk (c.packet transferId)) = _
  rw [after_handleChunk, incomingOf?_alone (hk ▸ rfl)]
  simp only [Option.elim, checkChunk_of_expects h]
  exact replace_alone rfl

theorem after_chunk_of_not_expects (h : ¬t.Expects c) : ∃ reason,
    (alone fs t).after (dispatch P downloadsDir free addrKey (c.packet transferId)) =
      { fs := (fs.remove t.partPath).remove t.destPath, aborting := [(t, reason)] } := by
  obtain ⟨reason, hr⟩ : ∃ reason, checkChunk t (c.packet transferId) = .ok (.abort reason) :=
    checkChunk_of_not_expects h
  refine ⟨reason, ?_⟩
  change (alone fs t).after (handleChunk (c.packet transferId)) = _
  rw [after_handleChunk, incomingOf?_alone (hk ▸ rfl)]
  simp only [Option.elim, hr, aborted, erase_alone]
  rfl

theorem after_done {checksum : Text} {content : Bytes} (hc : fs.read? t.partPath = some content) :
    (alone fs t).after (dispatch P downloadsDir free addrKey (.json (makeFileDone transferId checksum))) =
      { fs, verified := [(t, decide (Verifies t (P.sha256 content).hex))] } := by
  change (alone fs t).after (handleDone P (.json (makeFileDone transferId checksum))) = _
  have hd : sha256File P (alone fs t).fs t.partPath = .ok (P.sha256 content).hex := by
    rw [sha256File, alone, hc]
    rfl
  rw [after_handleDone, incomingOf?_alone (hk ▸ rfl)]
  simp only [Option.elim, hd, checked, popped, erase_alone]
  rfl

end TransferState
