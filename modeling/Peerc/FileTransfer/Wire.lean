import Peerc.FileTransfer.Single
import Peerc.Handshake.Dialogue
import Peerc.Peer.Theorems.WellFormed
import Peerc.Protocol.Theorems.Chunks

-- The frames of a file transfer

namespace Protocol

variable {P : Primitives} {frame : Bytes} {p : Packet}

-- JSON messages

theorem isFrame_encodeFrame {fields : List (Text × Json)} (hw : (Json.obj fields).WellFormed)
    (hv : validateMessage (.obj fields) = .ok ()) (h : encodeFrame P (.obj fields) = .ok frame) :
    IsFrame P frame (.json (.obj fields)) := by
  simp only [encodeFrame] at h
  split at h
  case h_1 => cases h
  case h_2 payload he =>
    split at h <;> cases h
    case isFalse hl =>
      exact .json (Handshake.encodeJson_obj_ne_nil he) (Nat.le_of_not_lt hl) (decodeJson_encodeJson hw he) hv

theorem encodeFrame_of_fits {m : Json} (h : Handshake.Fits P m) : ∃ frame, encodeFrame P m = .ok frame := by
  obtain ⟨frame, h⟩ := h.encodeFrame
  exact ⟨frame, Handshake.encodeFrame_eq_ok.mp h⟩

-- The messages of a transfer

section

variable {transferId senderId senderName filename checksum detail : Text} {size : Nat} {now : Double}
  {success : Bool}

theorem makeFileOffer_wellFormed (h : ¬now.isNaN) :
    (makeFileOffer transferId senderId senderName filename size checksum now).WellFormed := by
  refine ⟨?_, trivial, trivial, trivial, trivial, trivial, trivial, trivial, trivial,
    Json.float_wellFormed h, trivial⟩
  simp only [List.map_cons, List.map_nil]
  decide

theorem makeFileAccept_wellFormed (h : ¬now.isNaN) : (makeFileAccept transferId now).WellFormed := by
  refine ⟨?_, trivial, trivial, trivial, Json.float_wellFormed h, trivial⟩
  simp only [List.map_cons, List.map_nil]
  decide

theorem makeFileDone_wellFormed : (makeFileDone transferId checksum).WellFormed := by
  refine ⟨?_, trivial, trivial, trivial, trivial, trivial⟩
  simp only [List.map_cons, List.map_nil]
  decide

theorem makeFileCompleteAck_wellFormed : (makeFileCompleteAck transferId success detail).WellFormed := by
  refine ⟨?_, trivial, trivial, trivial, trivial, trivial, trivial⟩
  simp only [List.map_cons, List.map_nil]
  decide

theorem validate_makeFileOffer (hf : filename.val ≠ []) (hc : checksum.val ≠ []) :
    validateMessage (makeFileOffer transferId senderId senderName filename size checksum now) = .ok () := by
  let m := makeFileOffer transferId senderId senderName filename size checksum now
  have hs : (m.get? (.ofString "size")).bind Json.int? = some (size : Int) := rfl
  have hn : checkNatural "file_offer" "size" m = .ok () := by
    simp only [checkNatural, hs, if_neg (Int.not_lt.mpr (Int.natCast_nonneg size))]
    rfl
  change checkFileOffer m = _
  simp only [checkFileOffer, Handshake.checkNonEmptyText_of_text? m "filename" rfl hf, hn,
    Handshake.checkNonEmptyText_of_text? m "checksum" rfl hc]
  rfl

-- An offer fits if the name does not have more characters than file systems have for it.
theorem fits_fileOffer (hP : P.Lawful) (ht : transferId.val.length ≤ 1000) (hi : senderId.val.length ≤ 1000)
    (hn : senderName.val.length ≤ 1000) (hf : filename.val.length ≤ 1000) (hc : checksum.val.length ≤ 1000)
    (hs : size < 10 ^ 20) (now : Double) :
    Handshake.Fits P (makeFileOffer transferId senderId senderName filename size checksum now) := by
  refine Handshake.fits_of_dumps (n := 13000) ?_ (by simp only [List.length_cons, List.length_nil]; decide)
  simp only [List.forall_mem_cons]
  exact ⟨⟨_, rfl, by decide⟩, ⟨_, rfl, by decide⟩, Json.str_field_length_le (by decide) (by omega),
    Json.str_field_length_le (by decide) (by omega), Json.str_field_length_le (by decide) (by omega),
    Json.str_field_length_le (by decide) (by omega), Json.nat_field_length_le (by decide) hs (by decide),
    Json.str_field_length_le (by decide) (by omega),
    Json.float_field_length_le (by decide) hP.repr_length (by decide), List.forall_mem_nil _⟩

-- Those that the receiver and the end of the stream send are short.

theorem fits_fileAccept (hP : P.Lawful) (ht : transferId.val.length ≤ 1000) (now : Double) :
    Handshake.Fits P (makeFileAccept transferId now) := by
  refine Handshake.fits_of_dumps (n := 13000) ?_ (by simp only [List.length_cons, List.length_nil]; decide)
  simp only [List.forall_mem_cons]
  exact ⟨⟨_, rfl, by decide⟩, ⟨_, rfl, by decide⟩, Json.str_field_length_le (by decide) (by omega),
    Json.float_field_length_le (by decide) hP.repr_length (by decide), List.forall_mem_nil _⟩

theorem fits_fileDone (ht : transferId.val.length ≤ 1000) (hc : checksum.val.length ≤ 1000) :
    Handshake.Fits P (makeFileDone transferId checksum) := by
  refine Handshake.fits_of_dumps (n := 13000) ?_ (by simp only [List.length_cons, List.length_nil]; decide)
  simp only [List.forall_mem_cons]
  exact ⟨⟨_, rfl, by decide⟩, ⟨_, rfl, by decide⟩, Json.str_field_length_le (by decide) (by omega),
    Json.str_field_length_le (by decide) (by omega), List.forall_mem_nil _⟩

theorem fits_fileCompleteAck (ht : transferId.val.length ≤ 1000) (hd : detail.val.length ≤ 1000) :
    Handshake.Fits P (makeFileCompleteAck transferId true detail) := by
  refine Handshake.fits_of_dumps (n := 13000) ?_ (by simp only [List.length_cons, List.length_nil]; decide)
  simp only [List.forall_mem_cons]
  exact ⟨⟨_, rfl, by decide⟩, ⟨_, rfl, by decide⟩, Json.str_field_length_le (by decide) (by omega),
    ⟨_, rfl, by decide⟩, Json.str_field_length_le (by decide) (by omega), List.forall_mem_nil _⟩

end

theorem uuidText_length_le {uuid : Bytes} (h : uuid.length = 16) : (uuidText uuid).val.length ≤ 1000 := by
  have hl := Bytes.hex_length uuid
  simp only [uuidText, Uuid.text, Uuid.group, List.length_append, List.length_cons, List.length_take, List.length_drop]
  omega

-- Chunks

section

variable {uuid data : Bytes} {sequence offset : Nat}

theorem isFrame_chunk (hu : uuid.length = 16) (hs : sequence < 256 ^ 4) (ho : offset < 256 ^ 8)
    (hl : headerSize + data.length ≤ maxMessageSize) :
    ∃ frame, encodeBinaryFrame (fileDataPayload uuid sequence offset data) = .ok frame ∧
      IsFrame P frame (.fileData (uuidText uuid) sequence offset data) := by
  have hl : (fileDataPayload uuid sequence offset data).length ≤ maxMessageSize := by
    rw [fileDataPayload_length hu]
    exact hl
  refine ⟨encodeRaw .binary (fileDataPayload uuid sequence offset data), ?_, ?_⟩
  · rw [encodeBinaryFrame, if_neg (Nat.not_lt.mpr hl), encodeRaw]
  · exact .binary hl (decodeFileData_fileDataPayload hu hs ho)

end

theorem nextPacket_frame (h : IsFrame P frame p) (rest : Bytes) :
    (nextPacket readExactly P).run (frame ++ rest) = .ok p rest :=
  nextPacket_eq_ok_iff.mpr ⟨frame, h, rfl⟩

end Protocol
