import Peerc.Protocol.Binary

-- `encode_file_data` and `decode_file_data` are inverse to each other.

namespace Protocol

section

variable {uuid data : Bytes} {sequence offset : Nat}

-- What `encode_file_data` makes of the fields
def fileDataPayload (uuid : Bytes) (sequence offset : Nat) (data : Bytes) : Bytes :=
  uuid ++ Bytes.ofNatBE 4 sequence ++ Bytes.ofNatBE 8 offset ++ data

theorem encodeFileData_eq_ok (hu : uuid.length = 16) (hs : sequence < 256 ^ 4) (ho : offset < 256 ^ 8) :
    encodeFileData (uuidText uuid).val sequence offset data =
      .ok (fileDataPayload uuid sequence offset data) := by
  have hs' : ¬((sequence : Int) < 0 ∨ (sequence : Int) > 0xFFFFFFFF) := by omega
  have ho' : ¬((offset : Int) < 0 ∨ (offset : Int) > 0xFFFFFFFFFFFFFFFF) := by omega
  simp only [encodeFileData, uuidText, Uuid.parse_text hu, if_neg hs', if_neg ho', Int.toNat_natCast]
  rfl

theorem fileDataPayload_length (hu : uuid.length = 16) :
    (fileDataPayload uuid sequence offset data).length = headerSize + data.length := by
  simp only [fileDataPayload, List.length_append, hu, Bytes.ofNatBE_length, headerSize]

theorem decodeFileData_fileDataPayload (hu : uuid.length = 16) (hs : sequence < 256 ^ 4)
    (ho : offset < 256 ^ 8) :
    decodeFileData (fileDataPayload uuid sequence offset data) =
      .ok ⟨uuidText uuid, sequence, offset, data⟩ := by
  have hl : ¬(fileDataPayload uuid sequence offset data).length < headerSize := by
    rw [fileDataPayload_length hu]
    omega
  have h₄ : (Bytes.ofNatBE 4 sequence).length = 4 := Bytes.ofNatBE_length ..
  have h₈ : (Bytes.ofNatBE 8 offset).length = 8 := Bytes.ofNatBE_length ..
  have hp : fileDataPayload uuid sequence offset data =
      uuid ++ (Bytes.ofNatBE 4 sequence ++ (Bytes.ofNatBE 8 offset ++ data)) := by
    simp only [fileDataPayload, List.append_assoc]
  -- The header is cut off field by field.
  have hd₁₆ : (fileDataPayload uuid sequence offset data).drop 16 =
      Bytes.ofNatBE 4 sequence ++ (Bytes.ofNatBE 8 offset ++ data) := hp ▸ List.drop_left' hu
  have hd₂₀ : (fileDataPayload uuid sequence offset data).drop 20 = Bytes.ofNatBE 8 offset ++ data := by
    rw [← List.drop_drop (i := 4) (j := 16), hd₁₆, List.drop_left' h₄]
  have hd₂₈ : (fileDataPayload uuid sequence offset data).drop headerSize = data := by
    rw [headerSize, ← List.drop_drop (i := 8) (j := 20), hd₂₀, List.drop_left' h₈]
  rw [decodeFileData, if_neg hl, hd₁₆, hd₂₀, hd₂₈, hp, List.take_left' hu, List.take_left' h₄,
    List.take_left' h₈, Bytes.toNatBE_ofNatBE, Bytes.toNatBE_ofNatBE, Nat.mod_eq_of_lt hs,
    Nat.mod_eq_of_lt ho]

end

-- The errors of the two functions

theorem encodeFileData_eq_error {transferId : Str} {sequence offset : Int} {data : Bytes} :
    (∃ e, encodeFileData transferId sequence offset data = .error e) ↔
      Uuid.parse transferId = none ∨ ¬(0 ≤ sequence ∧ sequence < 2 ^ 32) ∨
        ¬(0 ≤ offset ∧ offset < 2 ^ 64) := by
  unfold encodeFileData
  cases Uuid.parse transferId
  case none => simp
  case some =>
    simp only [reduceCtorEq, false_or]
    split_ifs with hs ho
    · exact iff_of_true ⟨_, rfl⟩ (.inl (by omega))
    · exact iff_of_true ⟨_, rfl⟩ (.inr (by omega))
    · exact iff_of_false (by rintro ⟨_, ⟨⟩⟩) (by omega)

theorem decodeFileData_eq_error {payload : Bytes} :
    (∃ e, decodeFileData payload = .error e) ↔ payload.length < headerSize := by
  unfold decodeFileData
  split_ifs with h
  · exact iff_of_true ⟨_, rfl⟩ h
  · exact iff_of_false (by rintro ⟨_, ⟨⟩⟩) h

-- A payload with a whole header is the encoding of some fields.
theorem exists_fileDataPayload {payload : Bytes} (h : headerSize ≤ payload.length) :
    ∃ uuid sequence offset data, uuid.length = 16 ∧ sequence < 256 ^ 4 ∧ offset < 256 ^ 8 ∧
      payload = fileDataPayload uuid sequence offset data := by
  rw [headerSize] at h
  have h₁₆ : (payload.take 16).length = 16 := List.length_take_of_le (by omega)
  have h₄ : ((payload.drop 16).take 4).length = 4 :=
    List.length_take_of_le (by rw [List.length_drop]; omega)
  have h₈ : ((payload.drop 20).take 8).length = 8 :=
    List.length_take_of_le (by rw [List.length_drop]; omega)
  have hs := Bytes.toNatBE_lt ((payload.drop 16).take 4)
  have ho := Bytes.toNatBE_lt ((payload.drop 20).take 8)
  have hs' := Bytes.ofNatBE_toNatBE ((payload.drop 16).take 4)
  have ho' := Bytes.ofNatBE_toNatBE ((payload.drop 20).take 8)
  rw [h₄] at hs hs'
  rw [h₈] at ho ho'
  refine ⟨_, _, _, payload.drop 28, h₁₆, hs, ho, ?_⟩
  rw [fileDataPayload, hs', ho', List.append_assoc, List.append_assoc]
  have hd₂₈ : payload.drop 28 = (payload.drop 20).drop 8 := by rw [List.drop_drop]
  have hd₂₀ : payload.drop 20 = (payload.drop 16).drop 4 := by rw [List.drop_drop]
  rw [hd₂₈, List.take_append_drop, hd₂₀, List.take_append_drop, List.take_append_drop]

-- Canonical ids and numbers in range come back from their payload and every payload with a whole header
-- from its fields. Nothing else is accepted.
theorem file_data_codec :
    (∀ (transferId : Str) (sequence offset : Int) (data : Bytes), Uuid.IsCanonical transferId →
      0 ≤ sequence ∧ sequence < 2 ^ 32 → 0 ≤ offset ∧ offset < 2 ^ 64 →
      ∃ payload d, encodeFileData transferId sequence offset data = .ok payload ∧
        decodeFileData payload = .ok d ∧
        d.transferId.val = transferId ∧ d.sequence = sequence ∧ d.offset = offset ∧ d.data = data) ∧
    (∀ payload : Bytes, 28 ≤ payload.length →
      ∃ d, decodeFileData payload = .ok d ∧
        encodeFileData d.transferId.val d.sequence d.offset d.data = .ok payload) ∧
    (∀ (transferId : Str) (sequence offset : Int) (data : Bytes),
      (∃ e, encodeFileData transferId sequence offset data = .error e) ↔
        Uuid.parse transferId = none ∨ ¬(0 ≤ sequence ∧ sequence < 2 ^ 32) ∨
          ¬(0 ≤ offset ∧ offset < 2 ^ 64)) ∧
    ∀ payload : Bytes, (∃ e, decodeFileData payload = .error e) ↔ payload.length < 28 := by
  refine ⟨?encode, ?decode, fun _ _ _ _ => encodeFileData_eq_error, fun _ => decodeFileData_eq_error⟩
  case encode =>
    intro transferId sequence offset data hc hs ho
    obtain ⟨uuid, hu, rfl⟩ := Uuid.isCanonical_iff.mp hc
    obtain ⟨sequence, rfl⟩ := Int.eq_ofNat_of_zero_le hs.left
    obtain ⟨offset, rfl⟩ := Int.eq_ofNat_of_zero_le ho.left
    have hs : sequence < 256 ^ 4 := by omega
    have ho : offset < 256 ^ 8 := by omega
    exact ⟨_, _, encodeFileData_eq_ok hu hs ho, decodeFileData_fileDataPayload hu hs ho, rfl, rfl, rfl, rfl⟩
  case decode =>
    intro payload h
    obtain ⟨uuid, sequence, offset, data, hu, hs, ho, rfl⟩ := exists_fileDataPayload h
    exact ⟨_, decodeFileData_fileDataPayload hu hs ho, encodeFileData_eq_ok hu hs ho⟩

end Protocol
