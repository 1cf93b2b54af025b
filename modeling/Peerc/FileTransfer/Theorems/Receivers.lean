import Peerc.FileTransfer.Invariant
import Peerc.FileTransfer.Single
import Peerc.Transfer.Theorems.Resume

-- The receiver of a session and `FileReceiver`

open Protocol Transfer FileSystem

namespace TransferState

section

variable (P : Primitives) (downloadsDir : Str) (free : Option Nat) (addrKey : Str)

-- The handler that waits goes on. The user accepts.
def settle (s : TransferState) : TransferState :=
  [.decide 0 true, .abortSent 0, .ackSent 0].foldl (fun s e => (s.step P downloadsDir e).getD s) s

-- A handler is awaited before the connection reads the next message.
def handle (s : TransferState) (p : Packet) : TransferState :=
  (s.after (dispatch P downloadsDir free addrKey p)).settle P downloadsDir

-- If `_handle_chunk` writes the chunk
def accepts (s : TransferState) (p : Packet) : Bool :=
  (s.incomingOf? p).any fun t =>
    match checkChunk t p with
    | .ok (.write _) => true
    | _              => false

def handleChunks : TransferState → List Packet → List Bool × TransferState
  | s, []      => ([], s)
  | s, p :: ps =>
    let (accepted, s') := handleChunks (s.handle P downloadsDir free addrKey p) ps
    (s.accepts p :: accepted, s')

-- An offer, chunks and `file_done`, with which of the chunks are accepted
def receiveFile (s : TransferState) (offer : Packet) (chunks : List Packet) (done : Packet) :
    List Bool × TransferState :=
  let (accepted, s) := handleChunks P downloadsDir free addrKey (s.handle P downloadsDir free addrKey offer)
    chunks
  (accepted, s.handle P downloadsDir free addrKey done)

end

end TransferState

namespace Transfer.FileReceiver

variable (P : Primitives) (r : FileReceiver)

-- `write_chunk`, with `abort` on `ChunkValidationError`. Returns if the chunk was accepted.
def tryChunk (c : Chunk) : ReceiverM Bool :=
  tryCatch (do r.writeChunk c.sequence c.offset c.data; return true) fun
    | .chunkValidation _ => do r.abort; return false
    | e                  => throw e

-- An aborted transfer is over, and the chunks that follow are not accepted.
def receiveChunks : List Chunk → ReceiverM (List Bool × Bool)
  | []      => do return ([], ← r.finish P)
  | c :: cs => do
    if ← r.tryChunk c then
      let (accepted, success) ← receiveChunks cs
      return (true :: accepted, success)
    else return (false :: cs.map fun _ => false, false)

def receiveFile (chunks : List Chunk) : ReceiverM (List Bool × Bool) := do
  discard (r.prepare false)
  r.receiveChunks P chunks

variable {r} {c : Chunk} {s s' : ReceiverState}

theorem tryChunk_run (h : (r.writeChunk c.sequence c.offset c.data).run s = .ok () s') :
    (r.tryChunk c).run s = .ok true s' := by
  refine EStateM.run_tryCatch_ok ?_
  rw [EStateM.run_bind, h]
  rfl

theorem receiveChunks_run_false (cs : List Chunk) (h : (r.tryChunk c).run s = .ok false s') :
    (r.receiveChunks P (c :: cs)).run s = .ok (false :: cs.map fun _ => false, false) s' := by
  rw [receiveChunks, EStateM.run_bind, h]
  rfl

theorem receiveChunks_run_true (cs : List Chunk) (h : (r.tryChunk c).run s = .ok true s') :
    (r.receiveChunks P (c :: cs)).run s =
      (do let (accepted, success) ← r.receiveChunks P cs
          return (true :: accepted, success) : ReceiverM _).run s' := by
  rw [receiveChunks, EStateM.run_bind, h]
  rfl

theorem tryChunk_run_error {msg : Message}
    (h : (r.writeChunk c.sequence c.offset c.data).run s = .error (.chunkValidation msg) s') :
    (r.tryChunk c).run s = .ok false { s' with
      fileHandle := none
      status     := .failed
      fs         := s'.fs.remove r.partPath } := by
  have hb : (do r.writeChunk c.sequence c.offset c.data; return true : ReceiverM Bool).run s =
      .error (.chunkValidation msg) s' := by
    rw [EStateM.run_bind, h]
  rw [tryChunk, EStateM.run_tryCatch_error hb]
  simp only [EStateM.run_bind, abort_run]
  rfl

end Transfer.FileReceiver

namespace TransferState

variable {P : Primitives} {downloadsDir addrKey : Str} {free : Option Nat} {fs : FileSystem Str}
  {t : IncomingTransfer} {s : TransferState} {r : FileReceiver} {c : Chunk} {chunks : List Chunk}
  {transferId : Text}

-- No transfer is there, and no handler waits.
structure Still (s : TransferState) : Prop where
  incoming : s.incoming = .empty
  offers   : s.offers = []
  aborting : s.aborting = []
  verified : s.verified = []

theorem settle_eq_self (ho : s.offers = []) (ha : s.aborting = []) (hv : s.verified = []) :
    s.settle P downloadsDir = s := by
  simp [settle, step, ho, ha, hv]

theorem Still.accepts (h : Still s) : s.accepts (c.packet transferId) = false := by
  have hn : s.incomingOf? (c.packet transferId) = none := by
    rw [incomingOf?, h.incoming]
    rfl
  rw [TransferState.accepts, hn]
  rfl

theorem Still.handle_chunk (h : Still s) :
    s.handle P downloadsDir free addrKey (c.packet transferId) = s := by
  have ha : s.after (dispatch P downloadsDir free addrKey (c.packet transferId)) = s := by
    change s.after (handleChunk (c.packet transferId)) = s
    rw [after_handleChunk, incomingOf?, h.incoming]
    rfl
  rw [handle, ha, settle_eq_self h.offers h.aborting h.verified]

theorem Still.handle_done (h : Still s) {checksum : Text} :
    s.handle P downloadsDir free addrKey (.json (makeFileDone transferId checksum)) = s := by
  have ha : s.after (dispatch P downloadsDir free addrKey (.json (makeFileDone transferId checksum))) = s := by
    change s.after (handleDone P (.json (makeFileDone transferId checksum))) = s
    rw [after_handleDone, incomingOf?, h.incoming]
    rfl
  rw [handle, ha, settle_eq_self h.offers h.aborting h.verified]

theorem Still.handleChunks (h : Still s) (chunks : List Chunk) :
    s.handleChunks P downloadsDir free addrKey (chunks.map (·.packet transferId)) =
      (chunks.map fun _ => false, s) := by
  induction chunks
  case nil => rfl
  case cons c chunks hi =>
    simp only [List.map_cons, TransferState.handleChunks, h.handle_chunk, h.accepts, hi]

-- A transfer as both receivers have it
structure Receiving (r : FileReceiver) (fs : FileSystem Str) (t : IncomingTransfer) : Prop
    extends Staged fs t where
  dest     : t.destPath = r.destPath
  size     : t.size = r.size
  checksum : t.expectedChecksum.map (·.val) = some r.expectedChecksum
  vacant   : fs.entry t.destPath = none

-- The attributes of a `FileReceiver` for the transfer
def receiver (fs : FileSystem Str) (t : IncomingTransfer) : ReceiverState where
  bytesReceived      := t.bytesReceived
  expectedChunkIndex := t.expectedChunkIndex
  status             := .receiving
  fileHandle         := some t.fileHandle
  fs                 := fs

namespace Receiving

theorem partPath (h : Receiving r fs t) : t.partPath = r.partPath :=
  congrArg getPartPath h.dest

theorem advance (h : Receiving r fs t) (data : Bytes) :
    Receiving r (fs.append t.fileHandle data) (t.advance data) where
  inode    := h.inode
  content  := by
    calc (fs.append t.fileHandle data).content t.fileHandle
      _ = fs.content t.fileHandle ++ data := Function.update_self ..
      _ = t.accepted ++ data := by rw [h.content]
  length   := by
    show (t.accepted ++ data).length = t.bytesReceived + data.length
    rw [List.length_append, h.length]
  dest     := h.dest
  size     := h.size
  checksum := h.checksum
  vacant   := h.vacant

-- One chunk

theorem expects_iff (h : Receiving r fs t) :
    t.Expects c ↔ c.sequence = t.expectedChunkIndex ∧ c.offset = t.bytesReceived ∧
      t.bytesReceived + c.data.length ≤ r.size := by
  have hl : (t.bytesReceived + c.data.length : Int) ≤ t.size ↔
      t.bytesReceived + c.data.length ≤ r.size := by
    rw [h.size]
    omega
  exact ⟨fun ⟨hs, ho, hz⟩ => ⟨hs, ho, hl.mp hz⟩, fun ⟨hs, ho, hz⟩ => ⟨hs, ho, hl.mpr hz⟩⟩

theorem tryChunk_of_expects (h : Receiving r fs t) (hc : t.Expects c) :
    (r.tryChunk c).run (receiver fs t) =
      .ok true (receiver (fs.append t.fileHandle c.data) (t.advance c.data)) := by
  obtain ⟨hs, ho, hl⟩ := h.expects_iff.mp hc
  refine FileReceiver.tryChunk_run ?_
  rw [hs, ho]
  exact FileReceiver.writeChunk_run (s := receiver fs t) rfl rfl hl

theorem tryChunk_of_not_expects (h : Receiving r fs t) (hc : ¬t.Expects c) :
    (r.tryChunk c).run (receiver fs t) = .ok false { receiver fs t with
      fileHandle := none
      status     := .failed
      fs         := fs.remove r.partPath } := by
  have he : ∃ msg, (r.writeChunk c.sequence c.offset c.data).run (receiver fs t) =
      .error (.chunkValidation msg) (receiver fs t) := by
    simp only [FileReceiver.writeChunk, EStateM.run_bind, EStateM.run_get, receiver]
    by_cases hn : (c.sequence : Int) ≠ t.expectedChunkIndex ∨ (c.offset : Int) ≠ t.bytesReceived
    case pos =>
      rw [if_pos hn]
      exact ⟨_, rfl⟩
    case neg =>
      have hl : t.bytesReceived + c.data.length > r.size := by
        by_contra hl
        refine hc (h.expects_iff.mpr ⟨?_, ?_, Nat.not_lt.mp hl⟩) <;> omega
      rw [if_neg hn, if_pos hl]
      exact ⟨_, rfl⟩
  obtain ⟨msg, he⟩ := he
  exact FileReceiver.tryChunk_run_error he

theorem handle_chunk_of_expects (hk : t.transferId = .str transferId) (hc : t.Expects c) :
    (alone fs t).handle P downloadsDir free addrKey (c.packet transferId) =
      alone (fs.append t.fileHandle c.data) (t.advance c.data) := by
  rw [handle, after_chunk_of_expects hk hc]
  exact settle_eq_self rfl rfl rfl

-- The session also removes what has the name of the destination. Nothing has it.
theorem handle_chunk_of_not_expects (h : Receiving r fs t) (hk : t.transferId = .str transferId)
    (hc : ¬t.Expects c) : ∃ completion : Completion, completion.success = false ∧
      (alone fs t).handle P downloadsDir free addrKey (c.packet transferId) =
        { fs := fs.remove r.partPath, completions := [completion] } := by
  obtain ⟨reason, hr⟩ : ∃ reason,
    (alone fs t).after (dispatch P downloadsDir free addrKey (c.packet transferId)) =
      { fs := (fs.remove t.partPath).remove t.destPath, aborting := [(t, reason)] } :=
    after_chunk_of_not_expects hk hc
  have hd : (fs.remove t.partPath).remove t.destPath = fs.remove r.partPath := by
    have hs : Same t.destPath fs (fs.remove t.partPath) := same_remove (getPartPath_ne t.destPath).symm
    rw [remove_of_none (hs.entry.trans h.vacant), h.partPath]
  rw [handle, hr, hd]
  exact ⟨_, rfl, rfl⟩

theorem accepts_iff (hk : t.transferId = .str transferId) :
    (alone fs t).accepts (c.packet transferId) ↔ t.Expects c := by
  have hf : (alone fs t).incomingOf? (c.packet transferId) = some t := incomingOf?_alone (hk ▸ rfl)
  rw [accepts, hf]
  by_cases hc : t.Expects c
  case pos => simp [checkChunk_of_expects hc, hc]
  case neg =>
    obtain ⟨reason, hr⟩ : ∃ reason, checkChunk t (c.packet transferId) = .ok (.abort reason) :=
      checkChunk_of_not_expects hc
    simp [hr, hc]

end Receiving

-- Both receivers have handled some chunks of a transfer.
inductive Handled (P : Primitives) (downloadsDir : Str) (free : Option Nat) (addrKey : Str)
    (transferId : Text) (r : FileReceiver) (fs : FileSystem Str) (t : IncomingTransfer)
    (chunks : List Chunk) : Prop
  -- All were accepted, and it remains to verify the file.
  | complete {fs' : FileSystem Str} {t' : IncomingTransfer} (receiving : Receiving r fs' t')
    (id : t'.transferId = .str transferId) (grows : t.accepted <+: t'.accepted)
    (genuine : Genuine t'.accepted t.bytesReceived t.expectedChunkIndex chunks)
    (session : (alone fs t).handleChunks P downloadsDir free addrKey (chunks.map (·.packet transferId)) =
      (chunks.map fun _ => true, alone fs' t'))
    (receiver : (r.receiveChunks P chunks).run (receiver fs t) =
      (do return (chunks.map fun _ => true, ← r.finish P) : ReceiverM _).run (receiver fs' t'))
  -- One was not, and the transfer has failed.
  | aborted (accepted : List Bool) {fs' : FileSystem Str} {completion : Completion} {s' : ReceiverState}
    (failed : completion.success = false) (removed : fs'.entry r.partPath = none) (same : s'.fs = fs')
    (foreign : ∀ content : Bytes, content.length = r.size →
      ¬Genuine content t.bytesReceived t.expectedChunkIndex chunks)
    (session : (alone fs t).handleChunks P downloadsDir free addrKey (chunks.map (·.packet transferId)) =
      (accepted, { fs := fs', completions := [completion] }))
    (receiver : (r.receiveChunks P chunks).run (receiver fs t) = .ok (accepted, false) s')

theorem entry_remove_of_inode? {i : Nat} {n : Str} (h : fs.inode? n = some i) :
    (fs.remove n).entry n = none := by
  rw [entry_remove, if_pos (isFile_iff.mpr ⟨i, h⟩)]

namespace Handled

theorem of_not_expects (h : Receiving r fs t) (hk : t.transferId = .str transferId) (hc : ¬t.Expects c) :
    Handled P downloadsDir free addrKey transferId r fs t (c :: chunks) := by
  obtain ⟨completion, hf, hs⟩ : ∃ completion : Completion, completion.success = false ∧
      (alone fs t).handle P downloadsDir free addrKey (c.packet transferId) =
        { fs := fs.remove r.partPath, completions := [completion] } := h.handle_chunk_of_not_expects hk hc
  have ha : (alone fs t).accepts (c.packet transferId) = false :=
    eq_false_of_ne_true fun ha => hc ((Receiving.accepts_iff hk).mp ha)
  have hl : Still { fs := fs.remove r.partPath, completions := [completion] } := ⟨rfl, rfl, rfl, rfl⟩
  have hr := FileReceiver.receiveChunks_run_false P chunks (h.tryChunk_of_not_expects hc)
  refine .aborted _ hf ?_ rfl ?_ ?_ hr
  · exact entry_remove_of_inode? (h.partPath ▸ h.inode)
  · intro content hz hg
    obtain ⟨hq, ho, -, htl⟩ := genuine_cons.mp hg
    exact hc (h.expects_iff.mpr ⟨hq, ho, hz ▸ htl.le⟩)
  · simp only [List.map_cons, handleChunks, hs, hl.handleChunks, ha]

theorem of_expects (h : Receiving r fs t) (hk : t.transferId = .str transferId) (hc : t.Expects c)
    (hi : Handled P downloadsDir free addrKey transferId r (fs.append t.fileHandle c.data)
      (t.advance c.data) chunks) :
    Handled P downloadsDir free addrKey transferId r fs t (c :: chunks) := by
  have hs : (alone fs t).handle P downloadsDir free addrKey (c.packet transferId) = _ :=
    Receiving.handle_chunk_of_expects hk hc
  have ha : (alone fs t).accepts (c.packet transferId) = true := (Receiving.accepts_iff hk).mpr hc
  have hr := FileReceiver.receiveChunks_run_true P chunks (h.tryChunk_of_expects hc)
  cases hi
  case complete fs' t' receiving id grows genuine session receiver =>
    refine .complete receiving id ((List.prefix_append ..).trans grows) ?_ ?_ ?_
    · obtain ⟨rest, hw⟩ := grows
      have hd : t'.accepted.drop t.bytesReceived = c.data ++ rest := by
        rw [← hw, IncomingTransfer.advance, List.append_assoc, ← h.length, List.drop_left]
      exact genuine_cons.mpr ⟨hc.sequence, hc.offset, ⟨rest, hd.symm⟩, genuine⟩
    · simp only [List.map_cons, handleChunks, hs, session, ha]
    · rw [hr, EStateM.run_bind, receiver, EStateM.run_bind, EStateM.run_bind]
      cases (r.finish P).run (TransferState.receiver fs' t') <;> rfl
  case aborted accepted fs' completion s' failed removed same foreign session receiver =>
    refine .aborted (true :: accepted) failed removed same ?_ ?_ ?_
    · intro content hz hg
      exact foreign content hz (genuine_cons.mp hg).right.right.right
    · simp only [List.map_cons, handleChunks, hs, session, ha]
    · rw [hr, EStateM.run_bind, receiver]
      rfl

end Handled

theorem handled (h : Receiving r fs t) (hk : t.transferId = .str transferId) (chunks : List Chunk) :
    Handled P downloadsDir free addrKey transferId r fs t chunks := by
  induction chunks generalizing fs t
  case nil =>
    refine .complete h hk List.prefix_rfl ?_ rfl rfl
    exact h.length ▸ .nil
  case cons c chunks hi =>
    by_cases hc : t.Expects c
    case neg => exact .of_not_expects h hk hc
    case pos => exact .of_expects h hk hc (hi (h.advance c.data) hk)

-- The end of a transfer

namespace Receiving

theorem read? (h : Receiving r fs t) : fs.read? t.partPath = some t.accepted := by
  rw [read?_of_inode? h.inode, h.content]

theorem entry_partPath (h : Receiving r fs t) : (fs.remove r.partPath).entry r.partPath = none :=
  entry_remove_of_inode? (h.partPath ▸ h.inode)

theorem verifies_iff (h : Receiving r fs t) {digest : Str} :
    Verifies t digest ↔ digest = r.expectedChecksum ∧ t.bytesReceived = r.size := by
  rw [Verifies, h.checksum, h.size, Option.some.injEq, Nat.cast_inj, eq_comm]

theorem handle_done_of_verifies (h : Receiving r fs t) (hk : t.transferId = .str transferId)
    {checksum : Text} (hv : Verifies t (P.sha256 t.accepted).hex) :
    ∃ (fs' : FileSystem Str) (completion : Completion), completion.success = true ∧
      fs.replace r.partPath r.destPath = some fs' ∧
      (alone fs t).handle P downloadsDir free addrKey (.json (makeFileDone transferId checksum)) =
        { fs := fs', completions := [completion] } := by
  have hf : fs.isFile t.partPath := isFile_iff.mpr ⟨_, h.inode⟩
  obtain ⟨fs', hr⟩ := replace_of_isFile hf (by rw [h.vacant]; exact nofun)
  have hz : finalizePartFile fs t.partPath t.destPath = .ok fs' := by
    simp only [finalizePartFile, hf, not_true_eq_false, if_false, hr]
    rfl
  have he : (alone fs t).handle P downloadsDir free addrKey (.json (makeFileDone transferId checksum)) =
      TransferState.finalized { fs } t fs' := by
    rw [handle, after_done hk h.read?, decide_eq_true hv]
    simp only [settle, List.foldl, step, List.getElem?_nil, List.getElem?_cons_zero, Option.bind_eq_bind,
      Option.bind_some, Option.bind_none, Option.getD_none, after, run_resumeDone_success, hz]
    rfl
  rw [h.partPath, h.dest] at hr
  exact ⟨fs', _, rfl, hr, he⟩

theorem handle_done_of_not_verifies (h : Receiving r fs t) (hk : t.transferId = .str transferId)
    {checksum : Text} (hv : ¬Verifies t (P.sha256 t.accepted).hex) :
    ∃ completion : Completion, completion.success = false ∧
      (alone fs t).handle P downloadsDir free addrKey (.json (makeFileDone transferId checksum)) =
        { fs := fs.remove r.partPath, completions := [completion] } := by
  have he : (alone fs t).handle P downloadsDir free addrKey (.json (makeFileDone transferId checksum)) =
      TransferState.discarded { fs } t := by
    rw [handle, after_done hk h.read?, decide_eq_false hv]
    simp only [settle, List.foldl, step, List.getElem?_nil, List.getElem?_cons_zero, Option.bind_eq_bind,
      Option.bind_some, Option.bind_none, Option.getD_none, after, run_resumeDone_mismatch]
    rfl
  rw [discarded, h.partPath] at he
  exact ⟨_, rfl, he⟩

theorem finish_of_match (h : Receiving r fs t) (hb : t.bytesReceived = r.size)
    (hd : (P.sha256 t.accepted).hex = r.expectedChecksum.lower) :
    ∃ fs' s', fs.replace r.partPath r.destPath = some fs' ∧ s'.fs = fs' ∧
      (r.finish P).run (receiver fs t) = .ok true s' := by
  have hr : fs.read? r.partPath = some t.accepted := h.partPath ▸ h.read?
  have hn : fs.entry r.destPath ≠ some .directory := by
    rw [← h.dest, h.vacant]
    exact nofun
  obtain ⟨fs', hf, hs⟩ := FileReceiver.finish_run (s := receiver fs t) hb hr
    ((Bytes.hex_lower _).trans hd) hn
  exact ⟨fs', _, hf, rfl, hs⟩

theorem finish_of_mismatch (h : Receiving r fs t)
    (hn : ¬(t.bytesReceived = r.size ∧ (P.sha256 t.accepted).hex = r.expectedChecksum.lower)) :
    ∃ s', s'.fs = fs.remove r.partPath ∧ (r.finish P).run (receiver fs t) = .ok false s' := by
  have hr : fs.read? r.partPath = some t.accepted := h.partPath ▸ h.read?
  rw [← Bytes.hex_lower] at hn
  exact ⟨_, rfl, FileReceiver.finish_run_mismatch (s := receiver fs t) hr hn⟩

end Receiving

-- The two receivers have done the same.
def Agree (destPath : Str) (session : List Bool × TransferState)
    (receiver : EStateM.Result Failure ReceiverState (List Bool × Bool)) : Prop :=
  ∃ accepted success s', receiver = .ok (accepted, success) s' ∧ session.fst = accepted ∧
    session.snd.completions.map (·.success) = [success] ∧
    session.snd.fs.read? destPath = s'.fs.read? destPath ∧
    session.snd.fs.entry (getPartPath destPath) = none ∧ s'.fs.entry (getPartPath destPath) = none

-- The chunks are those of a file of the announced size, whose digest is the checksum in other letters.
def Misspelt (P : Primitives) (size : Nat) (checksum : Str) (chunks : List Chunk) : Prop :=
  ∃ content : Bytes, content.length = size ∧ Genuine content 0 0 chunks ∧
    (P.sha256 content).hex ≠ checksum ∧ (P.sha256 content).hex = checksum.lower

variable {accepted : List Bool} {checksum : Text}

-- The end of both receivers, if all chunks were accepted
theorem Receiving.agree_iff (h : Receiving r fs t) (hk : t.transferId = .str transferId) :
    Agree r.destPath
      (accepted, (alone fs t).handle P downloadsDir free addrKey (.json (makeFileDone transferId checksum)))
      ((do return (accepted, ← r.finish P) : ReceiverM _).run (receiver fs t)) ↔
    ¬(t.bytesReceived = r.size ∧ (P.sha256 t.accepted).hex ≠ r.expectedChecksum ∧
      (P.sha256 t.accepted).hex = r.expectedChecksum.lower) := by
  rw [EStateM.run_bind]
  by_cases hm : t.bytesReceived = r.size ∧ (P.sha256 t.accepted).hex = r.expectedChecksum.lower
  case neg =>
    have hv : ¬Verifies t (P.sha256 t.accepted).hex := by
      rw [h.verifies_iff]
      rintro ⟨hd, hb⟩
      refine hm ⟨hb, ?_⟩
      rw [← hd, Bytes.hex_lower]
    obtain ⟨s', hf, hr⟩ := h.finish_of_mismatch hm
    obtain ⟨completion, hc, hs⟩ := h.handle_done_of_not_verifies hk hv
    rw [hr, hs]
    refine iff_of_true ⟨_, _, _, rfl, rfl, ?_, ?_, h.entry_partPath, ?_⟩ fun hx => hm ⟨hx.left, hx.right.right⟩
    · rw [List.map_singleton, hc]
    · rw [hf]
    · rw [hf]
      exact h.entry_partPath
  case pos =>
    obtain ⟨hb, hd⟩ := hm
    obtain ⟨fs', s', hf, hs', hr⟩ := h.finish_of_match hb hd
    rw [hr]
    by_cases he : (P.sha256 t.accepted).hex = r.expectedChecksum
    case pos =>
      obtain ⟨fs₁, completion, hc, hf₁, hs⟩ := h.handle_done_of_verifies hk (h.verifies_iff.mpr ⟨he, hb⟩)
      cases hf.symm.trans hf₁
      have hn := (replace_eq_some (getPartPath_ne r.destPath) hf).right.right.left
      rw [hs]
      refine iff_of_true ⟨_, _, _, rfl, rfl, ?_, ?_, hn, ?_⟩ fun hx => hx.right.left he
      · rw [List.map_singleton, hc]
      · rw [hs']
      · rw [hs']
        exact hn
    case neg =>
      obtain ⟨completion, hc, hs⟩ := h.handle_done_of_not_verifies hk fun hv => he (h.verifies_iff.mp hv).left
      rw [hs]
      refine iff_of_false ?_ (not_not.mpr ⟨hb, he, hd⟩)
      rintro ⟨_, success, _, hx, -, hy, -⟩
      cases hx
      rw [List.map_singleton, hc] at hy
      cases hy

-- What `prepare` and the acceptance of an offer do is the same.

section

variable {senderId senderName filename : Text} {size chunkSize : Nat} {now : Double} {destPath : Str}

theorem receiving_begun (hd : fs.entry destPath = none) (hp : fs.entry (getPartPath destPath) = none) :
    Receiving ⟨size, checksum.val, destPath, chunkSize⟩ (fs.create (getPartPath destPath))
      (begun fs addrKey transferId checksum size destPath) where
  inode    := inode?_create
  content  := (openWrite_eq_some (openWrite_of_none hp)).right.left
  length   := rfl
  dest     := rfl
  size     := rfl
  checksum := rfl
  vacant   := (same_create (getPartPath_ne _).symm).entry.trans hd

theorem handle_offer (hz : (size : Int) ≤ maxIncomingFileSize) (hf : checkDiskSpace free size)
    (hd : resolveSafeDestPath fs downloadsDir filename.val = some destPath) :
    handle P downloadsDir free addrKey { fs }
        (.json (makeFileOffer transferId senderId senderName filename size checksum now)) =
      alone (fs.create (getPartPath destPath)) (begun fs addrKey transferId checksum size destPath) := by
  rw [handle, after_offer hz hf hd, settle, List.foldl, step_decide (resolveSafeDestPath_free hd).right]
  rfl

theorem receiveFile_run (addrKey : Str) (transferId : Text)
    (hp : fs.entry (getPartPath destPath) = none) :
    (FileReceiver.receiveFile P ⟨size, checksum.val, destPath, chunkSize⟩ chunks).run { fs } =
      (FileReceiver.receiveChunks P ⟨size, checksum.val, destPath, chunkSize⟩ chunks).run
        (receiver (fs.create (getPartPath destPath))
          (begun fs addrKey transferId checksum size destPath)) := by
  have ho : (fs.remove (getPartPath destPath)).openWrite (getPartPath destPath) =
      some (fs.fresh, fs.create (getPartPath destPath)) := by
    rw [remove_of_none hp, openWrite_of_none hp]
  have hr := FileReceiver.prepare_run_fresh (r := ⟨size, checksum.val, destPath, chunkSize⟩)
    (s := { fs }) (Bool.false_ne_true ·.left) ho
  rw [FileReceiver.receiveFile, EStateM.run_bind, EStateM.run_discard hr]
  rfl

end

theorem misspelt_iff {size : Nat} {content : Bytes} (hg : Genuine content 0 0 chunks) :
    Misspelt P size checksum.val chunks ↔
      content.length = size ∧ (P.sha256 content).hex ≠ checksum.val ∧
        (P.sha256 content).hex = checksum.val.lower := by
  constructor
  case mp =>
    rintro ⟨content', hz, hg', hn, hl⟩
    cases hg'.drop_eq.trans hg.drop_eq.symm
    exact ⟨hz, hn, hl⟩
  case mpr =>
    rintro ⟨hz, hn, hl⟩
    exact ⟨content, hz, hg, hn, hl⟩

end TransferState

open TransferState in
theorem receivers_agree_iff (P : Primitives) (downloadsDir addrKey : Str) (free : Option Nat)
    (fs : FileSystem Str) (transferId senderId senderName filename checksum doneChecksum : Text)
    (size chunkSize : Nat) (now : Double) (chunks : List Chunk) (destPath : Str)
    (hz : (size : Int) ≤ maxIncomingFileSize) (hf : checkDiskSpace free size)
    (hd : resolveSafeDestPath fs downloadsDir filename.val = some destPath) :
    Agree destPath
      (receiveFile P downloadsDir free addrKey { fs }
        (.json (makeFileOffer transferId senderId senderName filename size checksum now))
        (chunks.map (·.packet transferId)) (.json (makeFileDone transferId doneChecksum)))
      ((FileReceiver.receiveFile P ⟨size, checksum.val, destPath, chunkSize⟩ chunks).run { fs }) ↔
    ¬Misspelt P size checksum.val chunks := by
  obtain ⟨hn, hp⟩ := resolveSafeDestPath_free hd
  have h : Handled P downloadsDir free addrKey transferId ⟨size, checksum.val, destPath, chunkSize⟩
      (fs.create (getPartPath destPath)) (begun fs addrKey transferId checksum size destPath) chunks :=
    handled (receiving_begun hn hp) rfl chunks
  rw [receiveFile, handle_offer hz hf hd, receiveFile_run addrKey transferId hp]
  cases h
  case complete fs' t' receiving id grows genuine session receiver =>
    rw [session, receiver, misspelt_iff genuine, receiving.length]
    exact receiving.agree_iff id
  case aborted accepted fs' completion s' failed removed same foreign session receiver =>
    have hl : Still { fs := fs', completions := [completion] } := ⟨rfl, rfl, rfl, rfl⟩
    rw [session, receiver]
    refine iff_of_true ?_ fun ⟨content, hc, hg, _⟩ => foreign content hc hg
    refine ⟨accepted, false, s', rfl, rfl, ?_⟩
    dsimp only
    rw [hl.handle_done, same]
    exact ⟨congrArg (fun b => [b]) failed, rfl, removed, removed⟩

namespace TransferState.OneByte

-- A file of one byte, with its digest in small or in capital letters

def downloadsDir : Str :=
  .ofString "downloads"

def destPath : Str :=
  .ofString "downloads/a.txt"

def chunks : List Chunk :=
  [⟨0, 0, [0xAB]⟩]

def session (checksum : Text) : List Bool × TransferState :=
  receiveFile .transparent downloadsDir none (.ofString "10.0.0.2:5000") { fs := .empty }
    (.json (makeFileOffer (.ofString "1") (.ofString "") (.ofString "") (.ofString "a.txt") 1 checksum ⟨0⟩))
    (chunks.map (·.packet (.ofString "1"))) (.json (makeFileDone (.ofString "1") checksum))

def receiver (checksum : Text) : EStateM.Result Failure ReceiverState (List Bool × Bool) :=
  (FileReceiver.receiveFile .transparent ⟨1, checksum.val, destPath, 65536⟩ chunks).run { fs := .empty }

end TransferState.OneByte

open TransferState OneByte in
theorem receivers_agree_small : Agree destPath (session (.ofString "ab")) (receiver (.ofString "ab")) := by
  refine (receivers_agree_iff .transparent downloadsDir _ none .empty _ _ _ (.ofString "a.txt")
    (.ofString "ab") _ 1 65536 _ chunks destPath (by decide) rfl (by decide +kernel)).mpr ?_
  rintro ⟨content, -, hg, hn, -⟩
  cases hg.drop_eq
  exact hn (by decide)

open TransferState OneByte in
theorem receivers_disagree_capital :
    (session (.ofString "AB")).snd.completions.map (·.success) = [false] ∧
    (receiver (.ofString "AB")).value? = some ([true], true) ∧
    ¬Agree destPath (session (.ofString "AB")) (receiver (.ofString "AB")) := by
  have hs : (session (.ofString "AB")).snd.completions.map (·.success) = [false] := by decide +kernel
  have hr : (receiver (.ofString "AB")).value? = some ([true], true) := by decide +kernel
  refine ⟨hs, hr, ?_⟩
  rintro ⟨accepted, success, s', he, -, hc, -⟩
  rw [he] at hr
  cases hr
  cases hs.symm.trans hc
