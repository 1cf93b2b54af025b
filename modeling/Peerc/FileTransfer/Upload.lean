import Peerc.FileTransfer.Basic
import Peerc.Protocol.Binary
import Peerc.Protocol.Theorems.Stream
import Peerc.Transfer.Sender

-- The sender side of file_transfer.py, with its tasks

open Protocol Transfer

inductive UploadStatus
  | offered
  | rejected
  | sending
  | awaitingAck
  | done
  | failed
  deriving DecidableEq

-- Where a task that runs `_send_chunks` is suspended. It starts with the first turn of the event loop after
-- `create_task`.
inductive SendPhase
  | created
  -- In `send_binary`, with the chunks that `read_chunks` has yet to yield
  | sendingChunk (rest : List Chunk)
  -- In the `send` of `file_done`
  | sendingDone
  -- In `wait_for`
  | awaitingAck

-- What has been written to the connection for a transfer
inductive Written
  | offer (message : Json)
  | chunk (chunk : Chunk) (payload : Bytes)
  | done (message : Json)

def Written.frame : Written → AnyFrame
  | offer message | done message => .json message
  | chunk _ payload              => .binary payload

def Written.chunk? : Written → Option Chunk
  | chunk c _ => some c
  | _         => none

-- A call of `_notify_complete`
structure UploadReport where
  success  : Bool
  filepath : Option Str
  error    : Option String
  deriving DecidableEq

-- An `OutgoingTransfer`, with what has been done for it so far. `content` is what the file contains.
structure Upload where
  transferId : Text
  addrKey    : Str
  filepath   : Str
  filename   : Text
  content    : Bytes
  status     : UploadStatus := .offered
  ackEvent   : Bool := false
  ackSuccess : Bool := false
  -- `offer_file` waits for the `send` of the offer.
  offering   : Bool := true
  -- The transfer is in `_outgoing`.
  registered : Bool := false
  -- The tasks of the transfer that have not ended, and how many have been created
  tasks      : List SendPhase := []
  streams    : Nat := 0
  written    : List Written := []
  reports    : List UploadReport := []

-- CHUNK_SIZE
def uploadChunkSize : Nat := 64 * 1024

-- What the environment decides when a task goes on: how its `await` has ended, whether an `OSError` is raised
-- by the connection or the file, and whether there is a connection
structure Turn where
  ok        : Bool
  osError   : Bool
  connected : Bool

namespace Upload

variable (P : Primitives) (u : Upload)

def checksum : Text :=
  (P.sha256 u.content).hexText

-- The message with which the transfer is offered
def offer (now : Double) : Json :=
  makeFileOffer u.transferId (.ofString "") (.ofString "") u.filename u.content.length (u.checksum P) now

-- `read_chunks(transfer.filepath, chunk_size=CHUNK_SIZE)`, which raises only for other offsets than 0
def chunks : List Chunk :=
  (readChunks u.content 0 uploadChunkSize).toOption.getD []

def chunksWritten : List Chunk :=
  u.written.filterMap Written.chunk?

def write (w : Written) : Upload :=
  { u with written := u.written ++ [w] }

-- `_notify_complete`, after the status has been set
def notifyComplete (status : UploadStatus) (success : Bool) (filepath : Option Str)
    (error : Option String) : Upload :=
  { u with status, reports := u.reports ++ [⟨success, filepath, error⟩] }

-- The handlers, for a transfer that is in `_outgoing`

def handleAccept : Upload :=
  { u with status := .sending, tasks := u.tasks ++ [.created], streams := u.streams + 1 }

def handleReject : Upload :=
  { u.notifyComplete .rejected false none (some "rejected") with registered := false }

def handleCompleteAck (success : Bool) : Upload :=
  { u with ackSuccess := success, ackEvent := true }

-- `_send_chunks`, run by the task number `i`

def suspend (i : Nat) (phase : SendPhase) : Upload :=
  { u with tasks := u.tasks.set i phase }

-- `finally`
def finish (i : Nat) : Upload :=
  { u with tasks := u.tasks.eraseIdx i, registered := false }

def fail (i : Nat) (error : String) : Upload :=
  (u.notifyComplete .failed false none (some error)).finish i

def awaitAck (i : Nat) : Upload :=
  { u.suspend i .awaitingAck with status := .awaitingAck }

def complete (i : Nat) (success : Bool) : Upload :=
  (if success then u.notifyComplete .done true (some u.filepath) none
    else u.notifyComplete .failed false none (some "ack_failed_or_timeout")).finish i

-- From the next chunk to the next `await`. What the encoders raise is no `OSError`.
def proceed (i : Nat) (connected : Bool) : List Chunk → Upload
  | [] =>
    if ¬connected then u.awaitAck i
    else
      let done := makeFileDone u.transferId (u.checksum P)
      match encodeFrame P done with
      | .error _ => u.finish i
      | .ok _    => (u.write (.done done)).suspend i .sendingDone
  | chunk :: rest =>
    match encodeFileData u.transferId.val chunk.sequence chunk.offset chunk.data with
    | .error _    => u.finish i
    | .ok payload =>
      if ¬connected then u.fail i "send_failed"
      else
        match encodeBinaryFrame payload with
        | .error _ => u.finish i
        | .ok _    => (u.write (.chunk chunk payload)).suspend i (.sendingChunk rest)

def resume (i : Nat) (turn : Turn) : Option Upload :=
  match u.tasks[i]? with
  | none => none
  | some .created =>
    some <|
      if turn.osError then u.fail i "os_error" else u.proceed P i turn.connected u.chunks
  | some (.sendingChunk rest) =>
    some <|
      if turn.osError then u.fail i "os_error"
      else if ¬turn.ok then u.fail i "send_failed"
      else u.proceed P i turn.connected rest
  | some .sendingDone => some <| if turn.osError then u.fail i "os_error" else u.awaitAck i
  -- Without `ok` the time is up.
  | some .awaitingAck =>
    if ¬turn.ok then some (u.complete i false)
    else if u.ackEvent then some (u.complete i u.ackSuccess)
    else none

end Upload

-- The transfers of a session, from their offers on
structure UploadState where
  uploads : Table Text Upload Upload.transferId := .empty

inductive UploadEvent
  -- `offer_file` until its `await`
  | offerFile (transferId : Text) (addrKey filepath : Str) (filename : Text) (content : Bytes)
    (connected : Bool) (now : Double)
  -- The rest of `offer_file`. Without `ok` the `send` has returned `False` or raised.
  | offerSent (transferId : Text) (ok : Bool)
  | receive (p : Packet)
  | resume (transferId : Text) (task : Nat) (turn : Turn)

namespace UploadState

variable (P : Primitives) (s : UploadState)

def put (u : Upload) : UploadState :=
  { s with uploads := s.uploads.replace u }

-- `self._outgoing.get(message["transfer_id"])`. All keys are strings.
def outgoing? (p : Packet) : Option Upload :=
  match p.key? "transfer_id" with
  | some (.str transferId) => (s.uploads.find? transferId).filter (·.registered)
  | _                      => none

def receive (p : Packet) : UploadState :=
  match s.outgoing? p with
  | none   => s
  | some u =>
    if p.type? = some (.ofString "file_accept") then s.put u.handleAccept
    else if p.type? = some (.ofString "file_reject") then s.put u.handleReject
    else if p.type? = some (.ofString "file_complete_ack") then
      s.put (u.handleCompleteAck ((p.get? "success").getD .null).truthy)
    else s

-- A call that returns or raises before its `await` leaves nothing behind.
def offerFile (transferId : Text) (addrKey filepath : Str) (filename : Text) (content : Bytes)
    (connected : Bool) (now : Double) : UploadState :=
  let transfer : Upload := { transferId, addrKey, filepath, filename, content }
  if ¬connected then s
  else
    let offer := transfer.offer P now
    match encodeFrame P offer with
    | .error _ => s
    | .ok _    => s.put (transfer.write (.offer offer))

def step : UploadEvent → Option UploadState
  -- `uuid.uuid4()` is new.
  | .offerFile transferId addrKey filepath filename content connected now =>
    if (s.uploads.find? transferId).isSome then none
    else some (s.offerFile P transferId addrKey filepath filename content connected now)
  | .offerSent transferId ok => do
    let u ← s.uploads.find? transferId
    if u.offering then return s.put { u with offering := false, registered := ok } else none
  | .receive p => some (s.receive p)
  | .resume transferId task turn => do
    let u ← s.uploads.find? transferId
    return s.put (← u.resume P task turn)

def machine (P : Primitives) : Machine UploadState UploadEvent where
  Init s := s = {}
  step   := step P

end UploadState

-- What each step does, by what it finds

namespace Upload

variable (P : Primitives) (u : Upload) (i : Nat)

inductive ProceedEffect : List Chunk → Upload → Prop
  | chunk {chunk : Chunk} {rest : List Chunk} {payload : Bytes}
      (encoded : encodeFileData u.transferId.val chunk.sequence chunk.offset chunk.data = .ok payload) :
    ProceedEffect (chunk :: rest) ((u.write (.chunk chunk payload)).suspend i (.sendingChunk rest))
  | done : ProceedEffect [] ((u.write (.done (makeFileDone u.transferId (u.checksum P)))).suspend i .sendingDone)
  | awaitAck : ProceedEffect [] (u.awaitAck i)
  | failed {rest : List Chunk} (error : String) : ProceedEffect rest (u.fail i error)
  | raised {rest : List Chunk} : ProceedEffect rest (u.finish i)

-- What a task has yet to send
def unsent : SendPhase → List Chunk
  | .created           => u.chunks
  | .sendingChunk rest => rest
  | .sendingDone       => []
  | .awaitingAck       => []

inductive ResumeEffect : SendPhase → Upload → Prop
  | proceeds {phase : SendPhase} {u' : Upload} (effect : ProceedEffect P u i (u.unsent phase) u') :
    ResumeEffect phase u'
  | failed {phase : SendPhase} (error : String) : ResumeEffect phase (u.fail i error)
  | completed {phase : SendPhase} (success : Bool) : ResumeEffect phase (u.complete i success)

variable {P u i} {u' : Upload} {turn : Turn}

theorem readChunks_eq (u : Upload) : readChunks u.content 0 uploadChunkSize = .ok u.chunks := rfl

theorem proceed_effect (connected : Bool) (rest : List Chunk) :
    ProceedEffect P u i rest (u.proceed P i connected rest) := by
  cases rest
  case nil =>
    simp only [proceed]
    split
    · exact .awaitAck
    split
    · exact .raised
    · exact .done
  case cons chunk rest =>
    simp only [proceed]
    split
    · exact .raised
    case h_2 payload encoded =>
      split
      · exact .failed _
      split
      · exact .raised
      · exact .chunk encoded

theorem resume_effect (h : u.resume P i turn = some u') :
    ∃ phase, u.tasks[i]? = some phase ∧ ResumeEffect P u i phase u' := by
  simp only [resume] at h
  split at h
  case h_1 => cases h
  case h_2 hp =>
    injection h with h
    subst h
    refine ⟨_, hp, ?_⟩
    split
    · exact .failed _
    · exact .proceeds (proceed_effect ..)
  case h_3 hp =>
    injection h with h
    subst h
    refine ⟨_, hp, ?_⟩
    split
    · exact .failed _
    split
    · exact .failed _
    · exact .proceeds (proceed_effect ..)
  case h_4 hp =>
    injection h with h
    subst h
    refine ⟨_, hp, ?_⟩
    split
    · exact .failed _
    · exact .proceeds .awaitAck
  case h_5 hp =>
    refine ⟨_, hp, ?_⟩
    split at h
    · injection h with h
      exact h ▸ .completed _
    split at h
    · injection h with h
      exact h ▸ .completed _
    · cases h

end Upload

namespace UploadState

variable (P : Primitives) (s : UploadState)

inductive Effect : UploadEvent → UploadState → Prop
  | unchanged {e : UploadEvent} (sent : ∀ transferId ok, e ≠ .offerSent transferId ok)
      (ignored : ∀ p u, e = .receive p → s.outgoing? p = some u →
        p.type? ≠ some (.ofString "file_accept") ∧ p.type? ≠ some (.ofString "file_reject")) : Effect e s
  | offered {transferId filename : Text} {addrKey filepath : Str} {content : Bytes} {connected : Bool}
      {now : Double} {u : Upload} (new : s.uploads.find? transferId = none)
      (offered : u = { transferId, addrKey, filepath, filename, content }) :
    Effect (.offerFile transferId addrKey filepath filename content connected now)
      (s.put (u.write (.offer (u.offer P now))))
  | offerSent {transferId : Text} {u : Upload} {ok : Bool} (found : s.uploads.find? transferId = some u)
      (offering : u.offering) :
    Effect (.offerSent transferId ok) (s.put { u with offering := false, registered := ok })
  | accepted {p : Packet} {u : Upload} (found : s.outgoing? p = some u)
      (type : p.type? = some (.ofString "file_accept")) : Effect (.receive p) (s.put u.handleAccept)
  | rejected {p : Packet} {u : Upload} (found : s.outgoing? p = some u)
      (type : p.type? = some (.ofString "file_reject")) : Effect (.receive p) (s.put u.handleReject)
  | acknowledged {p : Packet} {u : Upload} (type : p.type? = some (.ofString "file_complete_ack"))
      (found : s.outgoing? p = some u) (success : Bool) :
    Effect (.receive p) (s.put (u.handleCompleteAck success))
  | resumed {transferId : Text} {u u' : Upload} {i : Nat} {turn : Turn} {phase : SendPhase}
      (found : s.uploads.find? transferId = some u) (task : u.tasks[i]? = some phase)
      (effect : Upload.ResumeEffect P u i phase u') : Effect (.resume transferId i turn) (s.put u')

variable {P s} {s' : UploadState} {e : UploadEvent} {p : Packet} {u : Upload}

theorem receive_effect : Effect P s (.receive p) (s.receive p) := by
  have sent (transferId ok) : UploadEvent.receive p ≠ .offerSent transferId ok := UploadEvent.noConfusion
  unfold receive
  split
  case h_1 found =>
    refine .unchanged sent fun p' u he hu => ?_
    cases he
    cases found.symm.trans hu
  case h_2 u found =>
    split
    case isTrue type => exact .accepted found type
    case isFalse ha =>
      split
      case isTrue type => exact .rejected found type
      case isFalse hj =>
        split
        case isTrue type => exact .acknowledged type found _
        case isFalse =>
          refine .unchanged sent fun p' u he hu => ?_
          cases he
          exact ⟨ha, hj⟩

theorem step_effect (h : s.step P e = some s') : Effect P s e s' := by
  cases e
  case offerFile =>
    obtain ⟨new, h⟩ := Option.ite_none_left_eq_some.mp h
    injection h with h
    subst h
    simp only [offerFile]
    split
    · exact .unchanged (fun _ _ => UploadEvent.noConfusion) fun _ _ he => UploadEvent.noConfusion he
    split
    · exact .unchanged (fun _ _ => UploadEvent.noConfusion) fun _ _ he => UploadEvent.noConfusion he
    · exact .offered (Option.not_isSome_iff_eq_none.mp new) rfl
  case offerSent =>
    obtain ⟨u, found, h⟩ := Option.bind_eq_some_iff.mp h
    obtain ⟨offering, h⟩ := Option.ite_none_right_eq_some.mp h
    injection h with h
    exact h ▸ .offerSent found offering
  case receive =>
    injection h with h
    exact h ▸ receive_effect
  case resume =>
    obtain ⟨u, found, h⟩ := Option.bind_eq_some_iff.mp h
    obtain ⟨u', hr, h⟩ := Option.bind_eq_some_iff.mp h
    injection h with h
    obtain ⟨phase, task, effect⟩ := Upload.resume_effect hr
    exact h ▸ .resumed found task effect

theorem registered_of_outgoing? (h : s.outgoing? p = some u) : u.registered := by
  unfold outgoing? at h
  split at h
  · exact (Option.filter_eq_some_iff.mp h).right
  · cases h

theorem mem_of_outgoing? (h : s.outgoing? p = some u) : u ∈ s.uploads.rows := by
  unfold outgoing? at h
  split at h
  · exact Table.mem_of_find? (Option.filter_eq_some_iff.mp h).left
  · cases h

theorem outgoing?_eq (h : p.key? "transfer_id" = some (.str u.transferId)) (hu : u ∈ s.uploads.rows) :
    s.outgoing? p = if u.registered then some u else none := by
  simp only [outgoing?, h, Table.find?_of_mem hu, Option.filter]

-- A property of all transfers is kept when one of them changes to a transfer with the property.
theorem forall_put {Q : Upload → Prop} (h : ∀ u ∈ s.uploads.rows, Q u) (hu : Q u) :
    ∀ u' ∈ (s.put u).uploads.rows, Q u' := by
  intro u' hm
  obtain rfl | ⟨hm, -⟩ := Table.mem_replace.mp hm
  · exact hu
  · exact h u' hm

end UploadState
