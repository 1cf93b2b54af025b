import Peerc.FileTransfer.Theorems.Verified

-- What an acknowledgement of `_handle_done` says about the file

-- How the call of `manager.send` ends
inductive SendOutcome
  | returned (delivered : Bool)
  | raised (e : HandlerError)

-- `os.replace` is refused when it raises an `OSError` for a reason outside of the two paths.
inductive ReplaceOutcome
  | performed
  | refused

namespace TransferState

open Transfer FileSystem

variable {P : Primitives} {s s' : TransferState} {t : IncomingTransfer} {p : Packet} {success : Bool}
  {content : Bytes} {sent : SendOutcome} {replace : ReplaceOutcome}

-- `_handle_done` from its reply on. What `manager.send` returns is not looked at.
def continueDone (t : IncomingTransfer) (success : Bool) :
    SendOutcome → ReplaceOutcome → TransferM Unit
  | .raised e,   _          => throw e
  | .returned _, .performed => resumeDone t success
  | .returned _, .refused   =>
    if success then throw <| .osError [.exc "OSError"] else resumeDone t false

-- The send returns, and the rename finds the `.part` file and is performed.
structure Renames (s : TransferState) (t : IncomingTransfer) (sent : SendOutcome)
    (replace : ReplaceOutcome) : Prop where
  returned  : ∃ delivered, sent = .returned delivered
  performed : replace = .performed
  source    : s.fs.isFile t.partPath
  target    : s.fs.entry t.destPath ≠ some .directory

def InPlace (content : Bytes) (t : IncomingTransfer) (s : TransferState) : Prop :=
  s.fs.read? t.destPath = some content

-- The content is in the `.part` file of the transfer, and this file belongs to no other transfer.
def LeftBehind (content : Bytes) (t : IncomingTransfer) (s : TransferState) : Prop :=
  s.fs.read? t.partPath = some content ∧ ∀ u ∈ s.live, u.partPath ≠ t.partPath

instance decidableLeftBehind : Decidable (LeftBehind content t s) :=
  inferInstanceAs (Decidable (_ ∧ _))

-- What a positive acknowledgement stands for
def Deposited (content : Bytes) (t : IncomingTransfer) (s : TransferState) : Prop :=
  InPlace content t s ∧ ¬LeftBehind content t s

theorem after_continueDone_of_renames (h : Renames s t sent replace) :
    ∃ fs, s.fs.replace t.partPath t.destPath = some fs ∧
      s.after (continueDone t true sent replace) = s.finalized t fs := by
  obtain ⟨⟨delivered, rfl⟩, rfl, hs, ht⟩ := h
  obtain ⟨fs, hf⟩ := replace_of_isFile hs ht
  refine ⟨fs, hf, ?_⟩
  have hd : finalizePartFile s.fs t.partPath t.destPath = .ok fs := by
    rw [finalizePartFile, if_neg (not_not.mpr hs), hf]
    rfl
  rw [continueDone, after, run_resumeDone_success, hd]
  rfl

-- Without the rename the handler leaves everything as it is.
theorem after_continueDone_of_not (h : ¬Renames s t sent replace) :
    s.after (continueDone t true sent replace) = s := by
  cases sent
  case raised => rfl
  case returned delivered =>
    cases replace
    case refused => rfl
    case performed =>
      rw [continueDone, after, run_resumeDone_success]
      split
      case h_1 => rfl
      case h_2 fs hf =>
        obtain ⟨hs, ht⟩ := isFile_of_replace (finalizePartFile_eq_ok hf)
        exact absurd ⟨⟨delivered, rfl⟩, rfl, hs, ht⟩ h

theorem deposited_of_renames (h : Renames s t sent replace) :
    Deposited content t (s.after (continueDone t true sent replace)) ↔
      s.fs.read? t.partPath = some content := by
  obtain ⟨fs, hf, ha⟩ := after_continueDone_of_renames h
  have hr : fs.read? t.destPath = s.fs.read? t.partPath := read?_replace (getPartPath_ne _) hf
  have he : fs.entry t.partPath = none := (replace_eq_some (getPartPath_ne _) hf).right.right.left
  have hp : fs.read? t.partPath = none := by
    rw [read?, inode?, he]
    rfl
  have hl : ¬LeftBehind content t (s.finalized t fs) := by
    rintro ⟨hc, -⟩
    rw [finalized, hp] at hc
    cases hc
  rw [ha, Deposited, and_iff_left hl, InPlace, finalized, hr]

theorem deposited_iff : Deposited content t (s.after (continueDone t true sent replace)) ↔
    (Renames s t sent replace ∧ s.fs.read? t.partPath = some content) ∨
      (¬Renames s t sent replace ∧ Deposited content t s) := by
  by_cases h : Renames s t sent replace
  case pos => simp only [deposited_of_renames h, h, true_and, not_true, false_and, or_false]
  case neg => simp only [after_continueDone_of_not h, h, false_and, not_false_eq_true, true_and, false_or]

-- The state in which `_handle_done` hands its reply over
theorem verified_handleDone
    (h : (s.after (handleDone P p)).verified = (t, success) :: s.verified) :
    ∃ content, s.fs.read? t.partPath = some content ∧
      (success ↔ Verifies t (P.sha256 content).hex) ∧ (s.after (handleDone P p)).fs = s.fs := by
  have hn (x : IncomingTransfer × Bool) : s.verified ≠ x :: s.verified :=
    fun he => absurd (congrArg List.length he) (by simp)
  rw [after_handleDone] at h ⊢
  cases ht : s.incomingOf? p
  case none =>
    rw [ht] at h
    exact absurd h (hn _)
  case some u =>
    rw [ht, Option.elim] at h
    rw [Option.elim]
    cases hd : sha256File P s.fs u.partPath
    case error =>
      rw [hd] at h
      exact absurd h (hn _)
    case ok digest =>
      rw [hd] at h
      cases h
      obtain ⟨content, hc, rfl⟩ := sha256File_eq_ok hd
      exact ⟨content, hc, by simp, rfl⟩

end TransferState

-- `_handle_done` has found out whether the transfer is the file that was offered, and sends this to the
-- peer. At this moment nothing has been renamed. When it goes on, in whatever state the other handlers
-- have left the session, it is the rename that puts the file in place.
open TransferState in
theorem success_ack_in_place_iff (P : Primitives) (s : TransferState) (p : Packet)
    (t : IncomingTransfer) (success : Bool)
    (h : (s.after (handleDone P p)).verified = (t, success) :: s.verified) :
    ∃ content, s.fs.read? t.partPath = some content ∧
      (success ↔ Verifies t (P.sha256 content).hex) ∧
      (s.after (handleDone P p)).fs = s.fs ∧
      ∀ s' sent replace,
        (success → Deposited content t (s'.after (continueDone t success sent replace))) ↔
        (success →
          (Renames s' t sent replace ∧ s'.fs.read? t.partPath = some content) ∨
          (¬Renames s' t sent replace ∧ Deposited content t s')) := by
  obtain ⟨content, hc, hv, hf⟩ := verified_handleDone h
  refine ⟨content, hc, hv, hf, fun s' sent replace => ?_⟩
  refine imp_congr_right fun hs => ?_
  rw [hs]
  exact deposited_iff

namespace TransferState.Names

-- The one byte of the file has arrived.
def arrived : List TransferEvent :=
  [receive (offer "1" "a" "01"), .decide 0 true, receive (chunk "1" 0 [1])]

def transfer : IncomingTransfer where
  transferId         := .str (.ofString "1")
  addrKey            := addrKey
  size               := 1
  expectedChecksum   := some (.ofString "01")
  destPath           := Str.ofString "d/a"
  bytesReceived      := 1
  expectedChunkIndex := 1
  fileHandle         := 0
  accepted           := [1]
  offeredAt          := 0

-- The session while `_handle_done` waits for its reply, and when it goes on
def waiting (s : TransferState) : TransferState :=
  s.after (handleDone .transparent (done "1"))

def resumed (s : TransferState) : TransferState :=
  { waiting s with verified := [] }

-- The rename is refused after the acknowledgement has been sent.
def refused (s : TransferState) : TransferState :=
  (resumed s).after (continueDone transfer true (.returned true) .refused)

-- The sending of the acknowledgement raises.
def disconnected (s : TransferState) : TransferState :=
  (resumed s).after <|
    continueDone transfer true (.raised (.osError [.exc "ConnectionResetError"])) .performed

def check (s : TransferState) : Bool :=
  (waiting s).verified = [(transfer, true)] ∧
    (refused s).fs.pathExists transfer.destPath = false ∧ LeftBehind [1] transfer (refused s) ∧
    LeftBehind [1] transfer (disconnected s)

def staged (s : TransferState) : Bool :=
  s.verified = [] ∧ (waiting s).verified = [(transfer, true)] ∧
    s.fs.read? transfer.partPath = some [1] ∧ s.fs.isFile transfer.partPath ∧
    s.fs.entry transfer.destPath = none

end TransferState.Names

-- A positive acknowledgement, and nothing is at the destination: the verified file is in a `.part` file
-- that no transfer knows of.
open TransferState Names in
theorem success_ack_without_file :
    ∃ s, (machine .transparent downloadsDir).Reachable s ∧
      (waiting s).verified = [(transfer, true)] ∧
      (refused s).fs.pathExists transfer.destPath = false ∧ LeftBehind [1] transfer (refused s) ∧
      LeftBehind [1] transfer (disconnected s) := by
  have h₀ : (machine .transparent downloadsDir).Reachable { fs := .empty } := .init ⟨_, rfl⟩
  obtain ⟨s, hr, hs⟩ := h₀.exec_any (p := check) arrived (by decide +kernel)
  exact ⟨s, hr, of_decide_eq_true hs⟩

-- The rename is performed, and it does not matter whether the acknowledgement got through.
open TransferState Names in
theorem success_ack_in_place_renamed :
    ∃ s, (machine .transparent downloadsDir).Reachable s ∧
      (waiting s).verified = [(transfer, true)] ∧
      ∀ delivered, Deposited [1] transfer
        ((resumed s).after (continueDone transfer true (.returned delivered) .performed)) := by
  have h₀ : (machine .transparent downloadsDir).Reachable { fs := .empty } := .init ⟨_, rfl⟩
  obtain ⟨s, hr, hs⟩ := h₀.exec_any (p := staged) arrived (by decide +kernel)
  obtain ⟨hv, hw, hc, hp, hd⟩ := of_decide_eq_true hs
  obtain ⟨content, hc', -, hf, h⟩ :=
    success_ack_in_place_iff .transparent s (done "1") transfer true (by rw [hv]; exact hw)
  obtain rfl : content = [1] := Option.some.inj (hc'.symm.trans hc)
  have hf : (resumed s).fs = s.fs := hf
  refine ⟨s, hr, hw, fun delivered => (h _ _ _).mpr (fun _ => .inl ⟨?_, hf ▸ hc⟩) rfl⟩
  exact ⟨⟨delivered, rfl⟩, rfl, hf ▸ hp, by rw [hf, hd]; nofun⟩
