import Peerc.Lib.Machine
import Peerc.Lib.Refines
import Peerc.Lib.Table
import Peerc.Peer.Packet
import Peerc.Transfer.DestPath

-- file_transfer.py

open Transfer

inductive OutgoingStatus
  | offered
  | sending
  | awaitingAck
  | done
  | failed
  deriving DecidableEq

-- `senders` counts the tasks that run `_send_chunks` for the transfer.
structure OutgoingTransfer where
  transferId : Text
  addrKey    : Str
  status     : OutgoingStatus := .offered
  ackEvent   : Bool := false
  ackSuccess : Bool := false
  senders    : Nat := 0
  deriving DecidableEq

def OutgoingTransfer.key (t : OutgoingTransfer) : Json.Key :=
  .str t.transferId

-- `accepted` is the data of the chunks that were accepted, and `offeredAt` the number of inodes at the
-- time of the offer.
structure IncomingTransfer where
  transferId         : Json.Key
  addrKey            : Str
  size               : Int
  expectedChecksum   : Option Text
  destPath           : Str
  bytesReceived      : Nat := 0
  expectedChunkIndex : Nat := 0
  fileHandle         : Nat
  accepted           : Bytes := []
  offeredAt          : Nat
  deriving DecidableEq

def IncomingTransfer.partPath (t : IncomingTransfer) : Str :=
  getPartPath t.destPath

-- An offer that waits for the decision of the user
structure Offer where
  transferId : Json
  addrKey    : Str
  size       : Int
  checksum   : Option Text
  destPath   : Str
  offeredAt  : Nat

-- The transfer that an accepted offer becomes
def Offer.transfer (offer : Offer) (key : Json.Key) (fileHandle : Nat) : IncomingTransfer where
  transferId       := key
  addrKey          := offer.addrKey
  size             := offer.size
  expectedChecksum := offer.checksum
  destPath         := offer.destPath
  fileHandle       := fileHandle
  offeredAt        := offer.offeredAt

-- A call of `_notify_complete`. `content` is what the file has at that moment.
structure Completion where
  transfer : OutgoingTransfer ⊕ IncomingTransfer
  success  : Bool
  filepath : Option Str := none
  error    : Option String := none
  content  : Option Bytes

-- The session with its handlers at the points where they are suspended
structure TransferState where
  fs          : FileSystem Str
  outgoing    : Table Json.Key OutgoingTransfer OutgoingTransfer.key := .empty
  incoming    : Table Json.Key IncomingTransfer IncomingTransfer.transferId := .empty
  -- `_handle_offer`, which waits for `on_offer_received`
  offers      : List Offer := []
  -- `_abort_incoming`, which waits for `manager.send`
  aborting    : List (IncomingTransfer × String) := []
  -- `_handle_done`, which waits for `manager.send`
  verified    : List (IncomingTransfer × Bool) := []
  completions : List Completion := []

abbrev TransferM := EStateM HandlerError TransferState

namespace TransferState

def notifyComplete (transfer : OutgoingTransfer ⊕ IncomingTransfer) (success : Bool)
    (filepath : Option Str) (error : Option String) : TransferM Unit :=
  modify fun s => { s with
    completions := { transfer, success, filepath, error, content := filepath >>= s.fs.read? } ::
      s.completions }

def liftFailure {α : Type} (x : Except Failure α) : Except HandlerError α :=
  x.mapError fun _ => .osError [.exc "OSError"]

-- Sender side

-- `self._outgoing.get(message["transfer_id"])`
def findOutgoing (p : Packet) : TransferM (Option OutgoingTransfer) := do
  let key ← p.key "transfer_id"
  return (← get).outgoing.find? key

def handleAccept (p : Packet) : TransferM Unit := do
  if let some t ← findOutgoing p then
    modify fun s => { s with
      outgoing := s.outgoing.replace { t with status := .sending, senders := t.senders + 1 } }

def handleReject (p : Packet) : TransferM Unit := do
  if let some t ← findOutgoing p then
    notifyComplete (.inl t) false none (some "rejected")
    modify fun s => { s with outgoing := s.outgoing.erase t.key }

def handleCompleteAck (p : Packet) : TransferM Unit := do
  if let some t ← findOutgoing p then
    let success := ((p.get? "success").getD .null).truthy
    modify fun s => { s with
      outgoing := s.outgoing.replace { t with ackSuccess := success, ackEvent := true } }

-- Receiver side

def maxIncomingFileSize : Int := 2 * 1024 * 1024 * 1024

def diskSafetyMargin : Int := 10 * 1024 * 1024

-- `check_disk_space`. Without a value `shutil.disk_usage` raises.
def checkDiskSpace (free : Option Nat) (requiredBytes : Int) : Bool :=
  match free with
  | some free => requiredBytes + diskSafetyMargin ≤ free
  | none      => true

-- `size > MAX_INCOMING_FILE_SIZE` compares numbers. Validation lets only integers pass.
def sizeOf (v : Json) : Except HandlerError Int :=
  match v.int? with
  | some n => return n
  | none   => throw <| .typeError [.text "'>' not supported between instances of '", .text v.typeName,
      .text "' and 'int'"]

-- `filename.replace`
def filenameOf (v : Json) : Except HandlerError Text :=
  match v.str? with
  | some s => return s
  | none   => throw <| .attributeError [.text "'", .text v.typeName,
      .text "' object has no attribute 'replace'"]

-- What `_handle_offer` asks the user about, if it does not reject the offer
def considerOffer (downloadsDir : Str) (free : Option Nat) (addrKey : Str) (fs : FileSystem Str)
    (p : Packet) : Except HandlerError (Option Offer) := do
  let transferId ← p.item "transfer_id"
  let filename ← p.item "filename"
  let size ← p.item "size"
  let checksum ← p.item "checksum"
  let size ← sizeOf size
  if size > maxIncomingFileSize then return none
  if ¬checkDiskSpace free size then return none
  let filename ← filenameOf filename
  match resolveSafeDestPath fs downloadsDir filename.val with
  | some destPath =>
    return some { transferId, addrKey, size, checksum := checksum.str?, destPath, offeredAt := fs.fresh }
  -- Only `PathTraversalError` is caught.
  | none          =>
    if (safeName? filename.val).isSome then throw <| .valueError [.exc "ValueError"] else return none

-- `_handle_offer` until the user is asked. A rejection changes nothing here.
def handleOffer (downloadsDir : Str) (free : Option Nat) (addrKey : Str) (p : Packet) :
    TransferM Unit := do
  if let some offer ← considerOffer downloadsDir free addrKey (← get).fs p then
    modify fun s => { s with offers := s.offers ++ [offer] }

-- The rest of `_handle_offer`
def resumeOffer (offer : Offer) (accept : Bool) : TransferM Unit := do
  if ¬accept then return
  let partPath := getPartPath offer.destPath
  modify fun s => { s with fs := cleanupPartFile s.fs partPath }
  match (← get).fs.openWrite partPath with
  | none => throw <| .osError [.exc "IsADirectoryError"]
  | some (fileHandle, fs) =>
    modify ({ · with fs })
    let key ← offer.transferId.hash
    modify fun s => { s with incoming := s.incoming.replace (offer.transfer key fileHandle) }

-- `_abort_incoming` until its reply
def abortIncoming (t : IncomingTransfer) (reason : String) : TransferM Unit :=
  modify fun s => { s with
    incoming := s.incoming.erase t.transferId
    fs       := (cleanupPartFile s.fs t.partPath).remove t.destPath
    aborting := (t, reason) :: s.aborting }

def resumeAbort (t : IncomingTransfer) (reason : String) : TransferM Unit :=
  notifyComplete (.inr t) false none (some reason)

-- What `_handle_chunk` does with a chunk of a transfer that it has found
inductive Verdict
  | abort (reason : String)
  | write (data : Bytes)

def checkChunk (t : IncomingTransfer) (p : Packet) : Except HandlerError Verdict := do
  let sequence ← p.item "sequence"
  let offset ← p.item "offset"
  if ¬sequence.equalsInt t.expectedChunkIndex ∨ ¬offset.equalsInt t.bytesReceived then
    return .abort "out-of-order chunk"
  let data ← p.data
  if t.bytesReceived + (← data.len) > t.size then
    return .abort "declared size exceeded"
  match data with
  | .bytes data => return .write data
  | .json v     => throw <| .typeError [.text "a bytes-like object is required, not '",
      .text v.typeName, .text "'"]

def handleChunk (p : Packet) : TransferM Unit := do
  let key ← p.key "transfer_id"
  if let some t := (← get).incoming.find? key then
    match ← checkChunk t p with
    | .abort reason => abortIncoming t reason
    | .write data   =>
      modify fun s => { s with
        fs       := s.fs.append t.fileHandle data
        incoming := s.incoming.replace { t with
          bytesReceived      := t.bytesReceived + data.length
          expectedChunkIndex := t.expectedChunkIndex + 1
          accepted           := t.accepted ++ data } }

-- `_handle_done` until its reply. On an empty `dict`, `pop` does not hash the key.
def handleDone (P : Primitives) (p : Packet) : TransferM Unit := do
  let transferId ← p.item "transfer_id"
  if (← get).incoming.rows.isEmpty then return
  let key ← transferId.hash
  if let some t := (← get).incoming.find? key then
    modify fun s => { s with incoming := s.incoming.erase key }
    let actualChecksum ← liftFailure <| sha256File P (← get).fs t.partPath
    let success :=
      t.expectedChecksum.map (·.val) = some actualChecksum ∧ (t.bytesReceived : Int) = t.size
    modify fun s => { s with verified := (t, decide success) :: s.verified }

-- The rest of `_handle_done`
def resumeDone (t : IncomingTransfer) (success : Bool) : TransferM Unit := do
  if ¬success then
    modify fun s => { s with fs := cleanupPartFile s.fs t.partPath }
    notifyComplete (.inr t) false none (some "checksum_mismatch")
  else
    let fs ← liftFailure <| finalizePartFile (← get).fs t.partPath t.destPath
    modify ({ · with fs })
    notifyComplete (.inr t) true (some t.destPath) none

-- `_dispatch`, and `_on_network_message` likewise
def dispatch (P : Primitives) (downloadsDir : Str) (free : Option Nat) (addrKey : Str) (p : Packet) :
    TransferM Unit :=
  if p.type? = some (.ofString "file_offer") then handleOffer downloadsDir free addrKey p
  else if p.type? = some (.ofString "file_accept") then handleAccept p
  else if p.type? = some (.ofString "file_reject") then handleReject p
  else if p.type? = some (.ofString "file_data") then handleChunk p
  else if p.type? = some (.ofString "file_done") then handleDone P p
  else if p.type? = some (.ofString "file_complete_ack") then handleCompleteAck p
  else return

end TransferState

-- Handlers are named by their position in the list in which they wait.
inductive TransferEvent
  | offerFile (transferId : Text) (addrKey : Str)
  | receive (addrKey : Str) (free : Option Nat) (p : Packet)
  | decide (i : Nat) (accept : Bool)
  | abortSent (i : Nat)
  | ackSent (i : Nat)

namespace TransferState

-- The state in which a task leaves the session, whether or not it raises
def after (s : TransferState) (x : TransferM Unit) : TransferState :=
  (x.run s).state

def step (P : Primitives) (downloadsDir : Str) (s : TransferState) : TransferEvent → Option TransferState
  -- The end of `offer_file`, after its offer has been sent
  | .offerFile transferId addrKey => some { s with outgoing := s.outgoing.replace { transferId, addrKey } }
  | .receive addrKey free p => some <| s.after (dispatch P downloadsDir free addrKey p)
  | .decide i accept => do
    let offer ← s.offers[i]?
    return { s with offers := s.offers.eraseIdx i }.after (resumeOffer offer accept)
  | .abortSent i => do
    let (t, reason) ← s.aborting[i]?
    return { s with aborting := s.aborting.eraseIdx i }.after (resumeAbort t reason)
  | .ackSent i => do
    let (t, success) ← s.verified[i]?
    return { s with verified := s.verified.eraseIdx i }.after (resumeDone t success)

-- Any files may be there at the start.
def machine (P : Primitives) (downloadsDir : Str) : Machine TransferState TransferEvent where
  Init s := ∃ fs, s = { fs }
  step   := step P downloadsDir

end TransferState
