import Peerc.Lib.Refines
import Peerc.Transfer.Receiver

-- What each method of a receiver does, by how it ends

namespace Transfer

theorem getPartPath_ne (destPath : Str) : getPartPath destPath ≠ destPath := by
  intro h
  have hl := congrArg List.length h
  rw [getPartPath, List.length_append] at hl
  have hp : partExtension.length = 5 := rfl
  omega

-- The check before the removal changes nothing: a name without a file is left alone anyway.
theorem cleanupPartFile_eq (fs : FileSystem Str) (partPath : Str) :
    cleanupPartFile fs partPath = fs.remove partPath := by
  unfold cleanupPartFile
  split
  case isTrue => rfl
  case isFalse h =>
    have hn : fs.entry partPath = none := by simpa [FileSystem.pathExists] using h
    simp [FileSystem.remove, FileSystem.isFile, FileSystem.inode?, hn]

theorem getPartialBytes_of_inode? {fs : FileSystem Str} {partPath : Str} {i : Nat}
    (h : fs.inode? partPath = some i) : getPartialBytes fs partPath = (fs.content i).length := by
  rw [getPartialBytes, FileSystem.read?_of_inode? h]
  rfl

-- Only a file has a length.
theorem inode?_of_getPartialBytes {fs : FileSystem Str} {partPath : Str}
    (h : 0 < getPartialBytes fs partPath) : ∃ i, fs.inode? partPath = some i := by
  cases hi : fs.inode? partPath
  case none => simp [getPartialBytes, FileSystem.read?, hi] at h
  case some i => exact ⟨i, rfl⟩

theorem finalizePartFile_eq_ok {fs fs' : FileSystem Str} {partPath destPath : Str}
    (h : finalizePartFile fs partPath destPath = .ok fs') :
    fs.replace partPath destPath = some fs' := by
  unfold finalizePartFile at h
  by_cases hf : fs.isFile partPath
  case neg =>
    rw [if_pos hf] at h
    cases h
  case pos =>
    rw [if_neg (not_not.mpr hf)] at h
    cases hr : fs.replace partPath destPath <;> rw [hr] at h <;> cases h
    rfl

theorem sha256File_eq_ok {P : Primitives} {fs : FileSystem Str} {filepath digest : Str}
    (h : sha256File P fs filepath = .ok digest) :
    ∃ content, fs.read? filepath = some content ∧ digest = (P.sha256 content).hex := by
  unfold sha256File at h
  cases hr : fs.read? filepath <;> rw [hr] at h <;> cases h
  exact ⟨_, rfl, rfl⟩

namespace FileReceiver

variable {P : Primitives} {r : FileReceiver} {s s' : ReceiverState}

theorem partPath_ne : r.partPath ≠ r.destPath :=
  getPartPath_ne _

theorem prepare_run_resume {i : Nat} (hi : s.fs.inode? r.partPath = some i)
    (hp : 0 < (s.fs.content i).length) (hl : (s.fs.content i).length < r.size)
    (hc : r.chunkSize ≠ 0) :
    (r.prepare true).run s = .ok (s.fs.content i).length { s with
      bytesReceived      := (s.fs.content i).length
      expectedChunkIndex := (s.fs.content i).length / r.chunkSize
      status             := .receiving
      fileHandle         := some i } := by
  have hb := getPartialBytes_of_inode? hi
  have ho := FileSystem.openAppend_of_inode? hi
  simp only [prepare, openPart, EStateM.run_bind, EStateM.run_get, EStateM.run_modify, hb, hp, hl,
    and_self, if_true, if_neg hc, ho]
  rfl

theorem prepare_run_zeroDivision {i : Nat} (hi : s.fs.inode? r.partPath = some i)
    (hp : 0 < (s.fs.content i).length) (hl : (s.fs.content i).length < r.size)
    (hc : r.chunkSize = 0) :
    (r.prepare true).run s = .error .zeroDivision { s with bytesReceived := (s.fs.content i).length } := by
  have hb := getPartialBytes_of_inode? hi
  simp only [prepare, EStateM.run_bind, EStateM.run_get, EStateM.run_modify, hb, hp, hl, and_self,
    if_true, if_pos hc]
  rfl

theorem prepare_run_fresh {resume : Bool} {i : Nat} {fs : FileSystem Str}
    (h : ¬(resume ∧ 0 < getPartialBytes s.fs r.partPath ∧ getPartialBytes s.fs r.partPath < r.size))
    (ho : (s.fs.remove r.partPath).openWrite r.partPath = some (i, fs)) :
    (r.prepare resume).run s = .ok 0
      { bytesReceived := 0, expectedChunkIndex := 0, status := .receiving, fileHandle := some i, fs } := by
  simp only [prepare, openPart, EStateM.run_bind, EStateM.run_get, EStateM.run_modify, if_neg h,
    cleanupPartFile_eq, ho]
  rfl

inductive PrepareEffect (r : FileReceiver) (s : ReceiverState) : ReceiverState → Prop
  | resumed {i : Nat} (hi : s.fs.inode? r.partPath = some i) (hl : (s.fs.content i).length < r.size) :
    PrepareEffect r s { s with
      bytesReceived      := (s.fs.content i).length
      expectedChunkIndex := (s.fs.content i).length / r.chunkSize
      status             := .receiving
      fileHandle         := some i }
  | zeroDivision {i : Nat} (hi : s.fs.inode? r.partPath = some i)
      (hl : (s.fs.content i).length < r.size) :
    PrepareEffect r s { s with bytesReceived := (s.fs.content i).length }
  | fresh {i : Nat} {fs : FileSystem Str}
      (ho : (s.fs.remove r.partPath).openWrite r.partPath = some (i, fs)) :
    PrepareEffect r s
      { bytesReceived := 0, expectedChunkIndex := 0, status := .receiving, fileHandle := some i, fs }
  | directory (hd : s.fs.entry r.partPath = some .directory) :
    PrepareEffect r s { s with bytesReceived := 0, expectedChunkIndex := 0 }

theorem prepare_effect (resume : Bool) : PrepareEffect r s ((r.prepare resume).run s).state := by
  by_cases h :
    resume ∧ 0 < getPartialBytes s.fs r.partPath ∧ getPartialBytes s.fs r.partPath < r.size
  case pos =>
    obtain ⟨rfl, hp, hl⟩ := h
    obtain ⟨i, hi⟩ := inode?_of_getPartialBytes hp
    rw [getPartialBytes_of_inode? hi] at hp hl
    by_cases hc : r.chunkSize = 0
    case neg => exact prepare_run_resume hi hp hl hc ▸ .resumed hi hl
    case pos => exact prepare_run_zeroDivision hi hp hl hc ▸ .zeroDivision hi hl
  case neg =>
    cases ho : (s.fs.remove r.partPath).openWrite r.partPath
    case some p => exact prepare_run_fresh h ho ▸ .fresh ho
    case none =>
      have hd : s.fs.entry r.partPath = some .directory := by
        have hr := FileSystem.openWrite_eq_none.mp ho
        rw [FileSystem.entry_remove] at hr
        split at hr <;> simp_all
      have hs : s.fs.remove r.partPath = s.fs := by
        simp [FileSystem.remove, FileSystem.isFile, FileSystem.inode?, hd, Node.inode?]
      rw [hs] at ho
      simp only [prepare, openPart, EStateM.run_bind, EStateM.run_get, EStateM.run_modify, if_neg h,
        cleanupPartFile_eq, hs, ho]
      exact .directory hd

theorem writeChunk_run {i : Nat} {data : Bytes} (hi : s.fileHandle = some i)
    (hs : s.status = .receiving) (hl : s.bytesReceived + data.length ≤ r.size) :
    (r.writeChunk s.expectedChunkIndex s.bytesReceived data).run s = .ok () { s with
      fs                 := s.fs.append i data
      bytesReceived      := s.bytesReceived + data.length
      expectedChunkIndex := s.expectedChunkIndex + 1 } := by
  simp only [writeChunk, EStateM.run_bind, EStateM.run_get, hi, hs, ne_eq, not_true_eq_false,
    or_self, if_false, if_neg hl.not_gt]
  rfl

inductive WriteEffect (r : FileReceiver) (s : ReceiverState) (data : Bytes) :
    EStateM.Result Failure ReceiverState Unit → Prop
  | written {i : Nat} (hi : s.fileHandle = some i) (hs : s.status = .receiving)
      (hl : s.bytesReceived + data.length ≤ r.size) :
    WriteEffect r s data (.ok () { s with
      fs                 := s.fs.append i data
      bytesReceived      := s.bytesReceived + data.length
      expectedChunkIndex := s.expectedChunkIndex + 1 })
  | refused (e : Failure) : WriteEffect r s data (.error e s)

theorem writeChunk_effect (sequence offset : Int) (data : Bytes) :
    WriteEffect r s data ((r.writeChunk sequence offset data).run s) := by
  simp only [writeChunk, EStateM.run_bind, EStateM.run_get]
  split
  case h_2 => exact .refused _
  case h_1 i hi hs =>
    by_cases ho : sequence ≠ s.expectedChunkIndex ∨ offset ≠ s.bytesReceived
    case pos => rw [if_pos ho]; exact .refused _
    case neg =>
      rw [if_neg ho]
      by_cases hl : s.bytesReceived + data.length > r.size
      case pos => rw [if_pos hl]; exact .refused _
      case neg => rw [if_neg hl]; exact .written hi hs (Nat.not_lt.mp hl)

theorem abort_run (cleanup : Bool) :
    (r.abort cleanup).run s = .ok () { s with
      fileHandle := none
      status     := .failed
      fs         := if cleanup then s.fs.remove r.partPath else s.fs } := by
  simp only [abort, EStateM.run_bind, EStateM.run_modify, cleanupPartFile_eq]
  cases cleanup <;> rfl

inductive FinishEffect (P : Primitives) (r : FileReceiver) (s : ReceiverState) :
    EStateM.Result Failure ReceiverState Bool → Prop
  | finalized {content : Bytes} {fs : FileSystem Str} (hb : s.bytesReceived = r.size)
      (hr : s.fs.read? r.partPath = some content)
      (hd : (P.sha256 content).hex.lower = r.expectedChecksum.lower)
      (hf : s.fs.replace r.partPath r.destPath = some fs) :
    FinishEffect P r s (.ok true { s with fileHandle := none, status := .done, fs })
  | discarded :
    FinishEffect P r s (.ok false
      { s with fileHandle := none, status := .failed, fs := s.fs.remove r.partPath })
  | raised (e : Failure) :
    FinishEffect P r s (.error e { s with fileHandle := none, status := .verifying })

theorem finish_effect : FinishEffect P r s ((r.finish P).run s) := by
  simp only [finish, EStateM.run_bind, EStateM.run_modify, EStateM.run_get]
  by_cases hb : s.bytesReceived ≠ r.size
  case pos =>
    rw [if_pos hb, EStateM.run_bind, abort_run]
    exact .discarded
  case neg =>
    rw [if_neg hb]
    simp only [EStateM.run_bind, EStateM.run_get]
    cases hs : sha256File P s.fs r.partPath
    case error e => exact .raised e
    case ok digest =>
      obtain ⟨content, hr, rfl⟩ := sha256File_eq_ok hs
      simp only [liftExcept, EStateM.run_pure]
      by_cases hd : (P.sha256 content).hex.lower ≠ r.expectedChecksum.lower
      case pos =>
        rw [if_pos hd, EStateM.run_bind, abort_run]
        exact .discarded
      case neg =>
        rw [if_neg hd]
        simp only [EStateM.run_bind, EStateM.run_get]
        cases hf : finalizePartFile s.fs r.partPath r.destPath
        case error e => exact .raised e
        case ok fs =>
          exact .finalized (not_not.mp hb) hr (not_not.mp hd) (finalizePartFile_eq_ok hf)

theorem finish_run {content : Bytes} (hb : s.bytesReceived = r.size)
    (hr : s.fs.read? r.partPath = some content)
    (hd : (P.sha256 content).hex.lower = r.expectedChecksum.lower)
    (hn : s.fs.entry r.destPath ≠ some .directory) :
    ∃ fs, s.fs.replace r.partPath r.destPath = some fs ∧
      (r.finish P).run s = .ok true { s with fileHandle := none, status := .done, fs } := by
  have hf : s.fs.isFile r.partPath := by
    rw [FileSystem.isFile, ← Option.isSome_map, ← FileSystem.read?, hr]
    rfl
  obtain ⟨fs, ho⟩ := FileSystem.replace_of_isFile hf hn
  refine ⟨fs, ho, ?_⟩
  have hz : finalizePartFile s.fs r.partPath r.destPath = .ok fs := by
    simp only [finalizePartFile, hf, not_true_eq_false, if_false, ho]
    rfl
  have hh : sha256File P s.fs r.partPath = .ok (P.sha256 content).hex := by
    simp only [sha256File, hr]
    rfl
  simp only [finish, EStateM.run_bind, EStateM.run_modify, EStateM.run_get, hb, ne_eq,
    not_true_eq_false, if_false, hh, liftExcept, EStateM.run_pure, hd, hz]

theorem finish_run_mismatch {content : Bytes} (hr : s.fs.read? r.partPath = some content)
    (hn : ¬(s.bytesReceived = r.size ∧ (P.sha256 content).hex.lower = r.expectedChecksum.lower)) :
    (r.finish P).run s = .ok false
      { s with fileHandle := none, status := .failed, fs := s.fs.remove r.partPath } := by
  have hh : sha256File P s.fs r.partPath = .ok (P.sha256 content).hex := by
    simp only [sha256File, hr]
    rfl
  simp only [finish, EStateM.run_bind, EStateM.run_modify, EStateM.run_get]
  by_cases hb : s.bytesReceived = r.size
  case neg =>
    rw [if_pos hb, EStateM.run_bind, abort_run]
    rfl
  case pos =>
    have hd : (P.sha256 content).hex.lower ≠ r.expectedChecksum.lower := fun hd => hn ⟨hb, hd⟩
    rw [if_neg (not_not.mpr hb)]
    simp only [EStateM.run_bind, EStateM.run_get, hh, liftExcept, EStateM.run_pure]
    rw [if_pos hd, EStateM.run_bind, abort_run]
    rfl

end FileReceiver
end Transfer
