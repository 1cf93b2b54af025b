import Peerc.FileTransfer.Basic
import Peerc.Transfer.Effect

-- core/transfer/manager.py

namespace Transfer

open TransferState (maxIncomingFileSize checkDiskSpace)

inductive OfferError
  | valueError (msg : Message)
  | insufficientDiskSpace (msg : Message)
  | transferSecurity (msg : Message)

-- A receiver in `_receivers`, with its attributes
structure Registered where
  transferId         : Text
  receiver           : FileReceiver
  bytesReceived      : Nat := 0
  expectedChunkIndex : Nat := 0
  status             : ReceiverStatus := .offered
  fileHandle         : Option Nat := none

namespace Registered

variable (t : Registered)

def isActive : Bool :=
  t.status = .receiving || t.status = .offered

-- What a method of the receiver sees, and what it leaves

def state (fs : FileSystem Str) : ReceiverState where
  bytesReceived      := t.bytesReceived
  expectedChunkIndex := t.expectedChunkIndex
  status             := t.status
  fileHandle         := t.fileHandle
  fs                 := fs

def update (s : ReceiverState) : Registered :=
  { t with
    bytesReceived      := s.bytesReceived
    expectedChunkIndex := s.expectedChunkIndex
    status             := s.status
    fileHandle         := s.fileHandle }

end Registered

-- An offer between its `validate_offer` and its `create_receiver`. It is `current` as long as no receiver has
-- been created in between.
structure ValidOffer where
  transferId : Text
  size       : Int
  destPath   : Str
  current    : Bool := true

-- What the constructor is given
structure FileTransferManager where
  downloadsDir     : Str
  maxConcurrent    : Int
  maxTotalIncoming : Int

-- The inbound side of a manager, with the offers on their way to it
structure Inbound where
  fs        : FileSystem Str
  receivers : Table Text Registered Registered.transferId := .empty
  offers    : List ValidOffer := []

namespace Inbound

variable (s : Inbound)

def active : List Registered :=
  s.receivers.rows.filter (·.isActive)

def activeIncomingCount : Nat :=
  s.active.length

def totalIncomingBytesPending : Nat :=
  (s.active.map (·.receiver.size)).sum

end Inbound

namespace FileTransferManager

variable (P : Primitives) (m : FileTransferManager) (s : Inbound)

def validateOffer (free : Option Nat) (filename : Str) (size : Int) : Except OfferError Str := do
  if size ≤ 0 ∨ size > maxIncomingFileSize then
    throw <| .valueError [.text "Invalid file size: ", .int size]
  if s.activeIncomingCount ≥ m.maxConcurrent then
    throw <| .insufficientDiskSpace [.text "Maximum concurrent transfers reached"]
  if s.totalIncomingBytesPending + size > m.maxTotalIncoming then
    throw <| .insufficientDiskSpace [.text "Total pending incoming transfer limit exceeded"]
  if ¬checkDiskSpace free size then
    throw <| .insufficientDiskSpace [.text "Insufficient free disk space in downloads directory"]
  match resolveSafeDestPath s.fs m.downloadsDir filename with
  | some destPath => return destPath
  | none          =>
    if (safeName? filename).isSome then throw <| .valueError [.exc "ValueError"]
    else throw <| .transferSecurity [.text "Unsafe filename: ", .repr filename]

-- The default of `chunk_size`
def receiverChunkSize : Nat := 64 * 1024

-- Sizes of valid offers are positive.
def createReceiver (offer : ValidOffer) (checksum : Str) : Inbound :=
  { s with
    receivers := s.receivers.replace
      { transferId := offer.transferId
        receiver   :=
          { size             := offer.size.toNat
            expectedChecksum := checksum
            destPath         := offer.destPath
            chunkSize        := receiverChunkSize } } }

def removeTransfer (transferId : Text) : Inbound :=
  { s with receivers := s.receivers.erase transferId }

-- A call of a method of a receiver, whether or not it raises
def call (t : Registered) (c : FileReceiver.Call) : Inbound :=
  let s' := ((c.exec P t.receiver).run (t.state s.fs)).state
  { s with
    fs        := s'.fs
    receivers := s.receivers.update t.transferId (·.update s') fun _ => rfl }

end FileTransferManager

-- The steps of an offer. `finish` and `abort` end it, after which its receiver is at most removed.
inductive OfferEvent
  | validateOffer (transferId : Text) (filename : Str) (size : Int) (free : Option Nat)
  | createReceiver (transferId : Text) (checksum : Str)
  | call (transferId : Text) (c : FileReceiver.Call)
  | removeTransfer (transferId : Text)

namespace FileTransferManager

variable (P : Primitives) (m : FileTransferManager)

def step (s : Inbound) : OfferEvent → Option Inbound
  | .validateOffer transferId filename size free =>
    if (s.receivers.find? transferId).isSome ∨ ∃ offer ∈ s.offers, offer.transferId = transferId then none
    else
      match m.validateOffer s free filename size with
      | .error _     => some s
      | .ok destPath => some { s with offers := s.offers ++ [{ transferId, size, destPath }] }
  | .createReceiver transferId checksum => do
    let offer ← s.offers.find? (·.transferId = transferId)
    let offers := s.offers.filter (·.transferId ≠ transferId)
    return createReceiver { s with offers := offers.map ({ · with current := false }) } offer checksum
  | .call transferId c => do
    let t ← s.receivers.find? transferId
    if t.isActive then return call P s t c else none
  | .removeTransfer transferId => some (removeTransfer s transferId)

-- Any files may be there at the start.
def machine (P : Primitives) (m : FileTransferManager) : Machine Inbound OfferEvent where
  Init s := ∃ fs, s = { fs }
  step   := step P m

end FileTransferManager

end Transfer
