import Peerc.Lib.BufferedWriter
import Peerc.Transfer.Effect

-- The methods of a receiver with the buffers of its file objects, and what is left of them when the bytes that wait
-- there are taken to be in the file

open BufferedWriter

namespace Transfer

@[ext]
structure BufferedState where
  bytesReceived      : Nat := 0
  expectedChunkIndex : Nat := 0
  status             : ReceiverStatus := .offered
  fileHandle         : Option BufferedWriter := none
  fs                 : FileSystem Str

abbrev BufferedM := EStateM Failure BufferedState

-- The state with all that was written in the file
def BufferedState.settled (s : BufferedState) : ReceiverState where
  bytesReceived      := s.bytesReceived
  expectedChunkIndex := s.expectedChunkIndex
  status             := s.status
  fileHandle         := s.fileHandle.map (·.inode)
  fs                 := close s.fileHandle s.fs

-- core/transfer/receiver.py

namespace FileReceiver.Buffered

-- The size of a buffer is the block size of the file system, or `io.DEFAULT_BUFFER_SIZE`.
variable (bufferSize : Nat) (P : Primitives) (r : FileReceiver)

-- `self._file_handle = file`. Nothing else refers to the file object that was there, which is closed thereby.
def setHandle (file : Option BufferedWriter) : BufferedM Unit :=
  modify fun s => { s with fs := close s.fileHandle s.fs, fileHandle := file }

-- `self._file_handle = open(self.part_path, mode)`
def openPart (mode : FileSystem Str → Str → Option (Nat × FileSystem Str)) : BufferedM Unit := do
  match mode (← get).fs r.partPath with
  | some (i, fs) =>
    modify ({ · with fs })
    setHandle (some { inode := i })
  | none => throw <| .osError [.exc "IsADirectoryError"]

def prepare (resume : Bool) : BufferedM Nat := do
  let existingBytes := getPartialBytes (← get).fs r.partPath
  if resume ∧ 0 < existingBytes ∧ existingBytes < r.size then
    modify ({ · with bytesReceived := existingBytes })
    if r.chunkSize = 0 then throw .zeroDivision
    modify ({ · with expectedChunkIndex := existingBytes / r.chunkSize })
    openPart r (·.openAppend ·)
    modify ({ · with status := .receiving })
    return existingBytes
  -- Fresh start
  modify fun s => { s with fs := cleanupPartFile s.fs r.partPath }
  modify ({ · with bytesReceived := 0, expectedChunkIndex := 0 })
  openPart r (·.openWrite ·)
  modify ({ · with status := .receiving })
  return 0

def writeChunk (sequence offset : Int) (data : Bytes) : BufferedM Unit := do
  let s ← get
  match s.fileHandle, s.status with
  | some file, .receiving =>
    if sequence ≠ s.expectedChunkIndex ∨ offset ≠ s.bytesReceived then
      throw <| .chunkValidation [.text "Out-of-order chunk: expected seq ",
        .int s.expectedChunkIndex, .text " offset ", .int s.bytesReceived, .text ", got seq ",
        .int sequence, .text " offset ", .int offset]
    if s.bytesReceived + data.length > r.size then
      throw <| .chunkValidation [.text "Declared size exceeded: ",
        .int (s.bytesReceived + data.length : Nat), .text " > ", .int r.size]
    set { s with
      fs                 := (file.write bufferSize s.fs data).2
      fileHandle         := some (file.write bufferSize s.fs data).1
      bytesReceived      := s.bytesReceived + data.length
      expectedChunkIndex := s.expectedChunkIndex + 1 }
  | _, _ =>
    throw <| .chunkValidation
      [.text "Cannot write chunk to uninitialized or inactive receiver"]

def abort (cleanup : Bool := true) : BufferedM Unit := do
  setHandle none
  modify ({ · with status := .failed })
  if cleanup then
    modify fun s => { s with fs := cleanupPartFile s.fs r.partPath }

def finish : BufferedM Bool := do
  setHandle none
  modify ({ · with status := .verifying })
  if (← get).bytesReceived ≠ r.size then
    abort r
    return false
  let actualChecksum ← sha256File P (← get).fs r.partPath
  if actualChecksum.lower ≠ r.expectedChecksum.lower then
    abort r
    return false
  let fs ← finalizePartFile (← get).fs r.partPath r.destPath
  modify ({ · with fs, status := .done })
  return true

def exec : Call → BufferedM Unit
  | .prepare resume                  => discard (prepare r resume)
  | .writeChunk sequence offset data => writeChunk bufferSize r sequence offset data
  | .finish                          => discard (finish P r)
  | .abort cleanup                   => abort r cleanup

-- The state after some calls, those that raise included
def run (s : BufferedState) (calls : List Call) : BufferedState :=
  calls.foldl (fun s call => ((exec bufferSize P r call).run s).state) s

-- Each method does to the settled state what the one without buffers does.

variable {bufferSize P r} {s : BufferedState}

theorem writeChunk_refines (sequence offset : Int) (data : Bytes) :
    EStateM.Refines BufferedState.settled (writeChunk bufferSize r sequence offset data)
      (r.writeChunk sequence offset data) := by
  rintro ⟨bytesReceived, expectedChunkIndex, status, fileHandle, fs⟩
  simp only [writeChunk, FileReceiver.writeChunk, EStateM.run_bind, EStateM.run_get, BufferedState.settled]
  cases fileHandle
  case none => rfl
  case some file =>
    cases status
    case receiving =>
      dsimp only [Option.map_some]
      split
      · rfl
      split
      · rfl
      simp only [EStateM.run_set, EStateM.Result.mapState, BufferedState.settled, close, Option.map_some,
        Option.getD_some, write_inode, flush_write]
    all_goals rfl

theorem writeChunk_error {sequence offset : Int} {data : Bytes} {e : Failure} {s' : BufferedState}
    (h : (writeChunk bufferSize r sequence offset data).run s = .error e s') : s' = s := by
  simp only [writeChunk, EStateM.run_bind, EStateM.run_get] at h
  split at h
  case h_2 =>
    cases h
    rfl
  case h_1 =>
    split at h
    · cases h
      rfl
    split at h <;> cases h
    rfl

theorem abort_refines (cleanup : Bool) :
    EStateM.Refines BufferedState.settled (abort r cleanup) (r.abort cleanup) := by
  intro s
  simp only [abort, FileReceiver.abort, setHandle, EStateM.run_bind, EStateM.run_modify]
  cases cleanup <;> rfl

theorem finish_refines : EStateM.Refines BufferedState.settled (finish P r) (r.finish P) := by
  intro s
  -- After the closing both read the same files.
  have hf : s.settled.fs = close s.fileHandle s.fs := rfl
  have hn : s.settled.bytesReceived = s.bytesReceived := rfl
  simp only [finish, FileReceiver.finish, setHandle, EStateM.run_bind, EStateM.run_modify, EStateM.run_get, hf, hn]
  split
  · rw [EStateM.run_bind, EStateM.run_bind]
    rfl
  simp only [EStateM.run_bind, EStateM.run_get]
  cases sha256File P (close s.fileHandle s.fs) r.partPath
  case error e => rfl
  case ok digest =>
    simp only [liftExcept, EStateM.run_pure, EStateM.run_liftM_ok]
    split
    · rw [EStateM.run_bind, EStateM.run_bind]
      rfl
    simp only [EStateM.run_bind, EStateM.run_get]
    cases finalizePartFile (close s.fileHandle s.fs) r.partPath r.destPath <;> rfl

-- `prepare` does so unless it goes on with a file that bytes are waiting for.

def Resumes (r : FileReceiver) (resume : Bool) (fs : FileSystem Str) : Prop :=
  resume ∧ 0 < getPartialBytes fs r.partPath ∧ getPartialBytes fs r.partPath < r.size

instance decidableResumes (r : FileReceiver) (resume : Bool) (fs : FileSystem Str) :
    Decidable (Resumes r resume fs) :=
  inferInstanceAs (Decidable (_ ∧ _))

theorem Resumes.file {resume : Bool} {fs : FileSystem Str} (h : Resumes r resume fs) :
    resume = true ∧ ∃ i, fs.inode? r.partPath = some i ∧ 0 < (fs.content i).length ∧
      (fs.content i).length < r.size := by
  obtain ⟨hr, hp, hl⟩ := h
  obtain ⟨i, hi⟩ := inode?_of_getPartialBytes hp
  rw [getPartialBytes_of_inode? hi] at hp hl
  exact ⟨hr, i, hi, hp, hl⟩

theorem prepare_run_resume {i : Nat} (hi : s.fs.inode? r.partPath = some i)
    (hp : 0 < (s.fs.content i).length) (hl : (s.fs.content i).length < r.size) (hc : r.chunkSize ≠ 0) :
    (prepare r true).run s = .ok (s.fs.content i).length {
      bytesReceived      := (s.fs.content i).length
      expectedChunkIndex := (s.fs.content i).length / r.chunkSize
      status             := .receiving
      fileHandle         := some { inode := i }
      fs                 := close s.fileHandle s.fs } := by
  have hb := getPartialBytes_of_inode? hi
  have ho := FileSystem.openAppend_of_inode? hi
  simp only [prepare, openPart, setHandle, EStateM.run_bind, EStateM.run_get, EStateM.run_modify, hb, hp, hl,
    and_self, if_true, if_neg hc, ho]
  rfl

theorem prepare_run_zeroDivision {i : Nat} (hi : s.fs.inode? r.partPath = some i)
    (hp : 0 < (s.fs.content i).length) (hl : (s.fs.content i).length < r.size) (hc : r.chunkSize = 0) :
    (prepare r true).run s = .error .zeroDivision { s with bytesReceived := (s.fs.content i).length } := by
  have hb := getPartialBytes_of_inode? hi
  simp only [prepare, EStateM.run_bind, EStateM.run_get, EStateM.run_modify, hb, hp, hl, and_self, if_true,
    if_pos hc]
  rfl

-- The start is as fresh as without `resume`.
theorem prepare_of_not_resumes {resume : Bool} (h : ¬Resumes r resume s.fs) :
    (prepare r resume).run s = (prepare r false).run s := by
  have hf : ¬Resumes r false s.fs := fun h => Bool.false_ne_true h.left
  unfold Resumes at h hf
  simp only [prepare, EStateM.run_bind, EStateM.run_get, if_neg h, if_neg hf]

theorem prepare_fresh {resume : Bool} (h : ¬Resumes r resume s.fs)
    (hs : ¬Resumes r resume (close s.fileHandle s.fs))
    (hv : ∀ file, s.fileHandle = some file → file.inode < s.fs.fresh) :
    (r.prepare resume).run s.settled = ((prepare r resume).run s).mapState BufferedState.settled := by
  unfold Resumes at h hs
  have hf : s.settled.fs = close s.fileHandle s.fs := rfl
  have hr : close s.fileHandle (s.fs.remove r.partPath) = (close s.fileHandle s.fs).remove r.partPath := close_remove
  have he : (close s.fileHandle s.fs).entry = s.fs.entry := entry_close
  simp only [prepare, FileReceiver.prepare, openPart, FileReceiver.openPart, setHandle, EStateM.run_bind,
    EStateM.run_get, EStateM.run_modify, if_neg h, if_neg hs, cleanupPartFile_eq, hf]
  by_cases hd : s.fs.entry r.partPath = some .directory
  case pos =>
    have ho := FileSystem.openWrite_remove_eq_none.mpr hd
    rw [← he] at hd
    rw [ho, FileSystem.openWrite_remove_eq_none.mpr hd, ← hr]
    rfl
  case neg =>
    have ho := FileSystem.openWrite_remove hd
    rw [← he] at hd
    have hc : close s.fileHandle ((s.fs.remove r.partPath).create r.partPath) =
        (close s.fileHandle (s.fs.remove r.partPath)).create r.partPath :=
      close_create (by rwa [FileSystem.fresh_remove])
    rw [ho, FileSystem.openWrite_remove hd, fresh_close, ← hr, ← hc]
    simp only [EStateM.run_bind, EStateM.run_modify, EStateM.run_pure, EStateM.Result.mapState,
      BufferedState.settled, close_new, Option.map_some]

theorem prepare_refines {resume : Bool} (h : resume → pending s.fileHandle = [])
    (hv : ∀ file, s.fileHandle = some file → file.inode < s.fs.fresh) :
    (r.prepare resume).run s.settled = ((prepare r resume).run s).mapState BufferedState.settled := by
  by_cases hr : Resumes r resume s.fs
  case pos =>
    obtain ⟨rfl, i, hi, hp, hl⟩ := hr.file
    have hk : close s.fileHandle s.fs = s.fs := close_of_pending (h rfl)
    have hf : s.settled.fs = s.fs := hk
    by_cases hc : r.chunkSize = 0
    case pos =>
      rw [prepare_run_zeroDivision hi hp hl hc, FileReceiver.prepare_run_zeroDivision (i := i) (by rwa [hf])
        (by rwa [hf]) (by rwa [hf]) hc, hf]
      simp only [EStateM.Result.mapState, BufferedState.settled, hk]
    case neg =>
      rw [prepare_run_resume hi hp hl hc, FileReceiver.prepare_run_resume (i := i) (by rwa [hf]) (by rwa [hf])
        (by rwa [hf]) hc, hf]
      simp only [EStateM.Result.mapState, BufferedState.settled, hk, close_new, Option.map_some]
  case neg =>
    refine prepare_fresh hr (fun hs => hr ?_) hv
    rwa [close_of_pending (h hs.left)] at hs

theorem exec_refines (call : Call) (h : call = .prepare true → pending s.fileHandle = [])
    (hv : ∀ file, s.fileHandle = some file → file.inode < s.fs.fresh) :
    (call.exec P r).run s.settled = ((exec bufferSize P r call).run s).mapState BufferedState.settled := by
  cases call
  case prepare resume => exact EStateM.mapState_discard (prepare_refines (fun hr => h (hr ▸ rfl)) hv)
  case writeChunk sequence offset data => exact writeChunk_refines sequence offset data s
  case finish => exact EStateM.mapState_discard (finish_refines s)
  case abort cleanup => exact abort_refines cleanup s

end FileReceiver.Buffered
end Transfer
