import Peerc.Lib.FileSystem
import Peerc.Lib.Message
import Peerc.Primitives

namespace Transfer

inductive Failure
  | chunkValidation (msg : Message)
  | osError (msg : Message)
  | valueError (msg : Message)
  | zeroDivision

-- core/transfer/resume.py

def partExtension : Str :=
  Str.ofString ".part"

def getPartPath (destPath : Str) : Str :=
  destPath ++ partExtension

def getPartialBytes (fs : FileSystem Str) (partPath : Str) : Nat :=
  ((fs.read? partPath).map List.length).getD 0

def cleanupPartFile (fs : FileSystem Str) (partPath : Str) : FileSystem Str :=
  if fs.pathExists partPath then fs.remove partPath else fs

def finalizePartFile (fs : FileSystem Str) (partPath destPath : Str) :
    Except Failure (FileSystem Str) := do
  if ¬fs.isFile partPath then
    throw <| .osError [.text "Partial file not found: ", .str partPath]
  match fs.replace partPath destPath with
  | some fs => return fs
  | none    => throw <| .osError [.exc "IsADirectoryError"]

-- core/transfer/hashing.py

def sha256File (P : Primitives) (fs : FileSystem Str) (filepath : Str) : Except Failure Str :=
  match fs.read? filepath with
  | some content => return (P.sha256 content).hex
  | none         => throw <| .osError [.exc "OSError"]

-- core/transfer/receiver.py

inductive ReceiverStatus
  | offered
  | receiving
  | verifying
  | done
  | failed
  deriving DecidableEq

-- What the constructor is given. Sizes are lengths: the schema of an offer refuses negative ones.
structure FileReceiver where
  size             : Nat
  expectedChecksum : Str
  destPath         : Str
  chunkSize        : Nat

-- The attributes that the methods change, and the file system. What is written is taken to be in the file at once: the
-- methods with the buffers of the file objects are those of `FileReceiver.Buffered`, which do the same as these unless
-- `prepare` goes on with a file for which bytes are waiting.
@[ext]
structure ReceiverState where
  bytesReceived      : Nat := 0
  expectedChunkIndex : Nat := 0
  status             : ReceiverStatus := .offered
  fileHandle         : Option Nat := none
  fs                 : FileSystem Str

abbrev ReceiverM := EStateM Failure ReceiverState

namespace FileReceiver

variable (P : Primitives) (r : FileReceiver)

def partPath : Str :=
  getPartPath r.destPath

-- `self._file_handle = open(self.part_path, mode)`
def openPart (mode : FileSystem Str → Str → Option (Nat × FileSystem Str)) : ReceiverM Unit := do
  match mode (← get).fs r.partPath with
  | some (i, fs) => modify ({ · with fs, fileHandle := some i })
  | none         => throw <| .osError [.exc "IsADirectoryError"]

def prepare (resume : Bool) : ReceiverM Nat := do
  let existingBytes := getPartialBytes (← get).fs r.partPath
  if resume ∧ 0 < existingBytes ∧ existingBytes < r.size then
    modify ({ · with bytesReceived := existingBytes })
    if r.chunkSize = 0 then throw .zeroDivision
    modify ({ · with expectedChunkIndex := existingBytes / r.chunkSize })
    r.openPart (·.openAppend ·)
    modify ({ · with status := .receiving })
    return existingBytes
  -- Fresh start
  modify fun s => { s with fs := cleanupPartFile s.fs r.partPath }
  modify ({ · with bytesReceived := 0, expectedChunkIndex := 0 })
  r.openPart (·.openWrite ·)
  modify ({ · with status := .receiving })
  return 0

def writeChunk (sequence offset : Int) (data : Bytes) : ReceiverM Unit := do
  let s ← get
  match s.fileHandle, s.status with
  | some i, .receiving =>
    if sequence ≠ s.expectedChunkIndex ∨ offset ≠ s.bytesReceived then
      throw <| .chunkValidation [.text "Out-of-order chunk: expected seq ",
        .int s.expectedChunkIndex, .text " offset ", .int s.bytesReceived, .text ", got seq ",
        .int sequence, .text " offset ", .int offset]
    if s.bytesReceived + data.length > r.size then
      throw <| .chunkValidation [.text "Declared size exceeded: ",
        .int (s.bytesReceived + data.length : Nat), .text " > ", .int r.size]
    set { s with
      fs                 := s.fs.append i data
      bytesReceived      := s.bytesReceived + data.length
      expectedChunkIndex := s.expectedChunkIndex + 1 }
  | _, _ =>
    throw <| .chunkValidation
      [.text "Cannot write chunk to uninitialized or inactive receiver"]

def abort (cleanup : Bool := true) : ReceiverM Unit := do
  modify ({ · with fileHandle := none, status := .failed })
  if cleanup then
    modify fun s => { s with fs := cleanupPartFile s.fs r.partPath }

def liftExcept {α : Type} : Except Failure α → ReceiverM α
  | .ok a    => return a
  | .error e => throw e

def finish : ReceiverM Bool := do
  modify ({ · with fileHandle := none, status := .verifying })
  if (← get).bytesReceived ≠ r.size then
    r.abort
    return false
  let actualChecksum ← liftExcept <| sha256File P (← get).fs r.partPath
  if actualChecksum.lower ≠ r.expectedChecksum.lower then
    r.abort
    return false
  let fs ← liftExcept <| finalizePartFile (← get).fs r.partPath r.destPath
  modify ({ · with fs, status := .done })
  return true

-- A call of a method. The program goes on after one that raises.
inductive Call
  | prepare (resume : Bool)
  | writeChunk (sequence offset : Int) (data : Bytes)
  | finish
  | abort (cleanup : Bool)

def Call.exec : Call → ReceiverM Unit
  | .prepare resume                  => discard (r.prepare resume)
  | .writeChunk sequence offset data => r.writeChunk sequence offset data
  | .finish                          => discard (r.finish P)
  | .abort cleanup                   => r.abort cleanup

end FileReceiver
end Transfer
