import Peerc.Transfer.Theorems.Limits

-- What becomes of a file that has arrived in part when it is offered again

namespace Transfer

open FileTransferManager

variable {m : FileTransferManager} {s : Inbound} {t : Registered} {offer : ValidOffer} {checksum : Str}

theorem destPath_of_createReceiver
    (h : (createReceiver s offer checksum).receivers.find? offer.transferId = some t) :
    t.receiver.destPath = offer.destPath := by
  rw [createReceiver, Table.find?_replace, if_pos rfl] at h
  cases h
  rfl

-- Where there is no `.part` file, `resume` makes no difference.
theorem prepare_of_absent {r : FileReceiver} {st : ReceiverState} {resume : Bool}
    (h : st.fs.entry r.partPath = none) :
    (r.prepare resume).run st = .ok 0
      { bytesReceived := 0, expectedChunkIndex := 0, status := .receiving, fileHandle := some st.fs.fresh
        fs            := st.fs.create r.partPath } := by
  have hb : getPartialBytes st.fs r.partPath = 0 := by
    simp [getPartialBytes, FileSystem.read?, FileSystem.inode?, h]
  refine FileReceiver.prepare_run_fresh (fun hr => ?_) ?_
  · rw [hb] at hr
    exact absurd hr.right.left (lt_irrefl 0)
  · rw [FileSystem.remove_of_none h]
    exact FileSystem.openWrite_of_none h

end Transfer

open Transfer FileTransferManager

-- In whatever state the file is offered again: `prepare(resume=True)` returns the number of bytes that are in the
-- `.part` file of the earlier transfer if and only if there are none. Otherwise it begins another file and leaves
-- the earlier one as it is.
theorem reoffer_resumes_iff {m : FileTransferManager} {s : Inbound} {free : Option Nat} {filename checksum : Str}
    {offer : ValidOffer} {t : Registered}
    (hv : m.validateOffer s free filename offer.size = .ok offer.destPath)
    (ht : (createReceiver s offer checksum).receivers.find? offer.transferId = some t) (earlier : Str) :
    ((∃ st, (t.receiver.prepare true).run (t.state s.fs) =
        .ok (getPartialBytes s.fs (getPartPath earlier)) st) ↔ getPartialBytes s.fs (getPartPath earlier) = 0) ∧
    (0 < getPartialBytes s.fs (getPartPath earlier) →
      t.receiver.partPath ≠ getPartPath earlier ∧
      ∃ st, (t.receiver.prepare true).run (t.state s.fs) = .ok 0 st ∧
        FileSystem.Same (getPartPath earlier) s.fs st.fs) := by
  obtain ⟨-, -, -, hd⟩ := validateOffer_eq_ok hv
  have hn : s.fs.entry t.receiver.partPath = none := by
    rw [FileReceiver.partPath, destPath_of_createReceiver ht]
    exact (resolveSafeDestPath_free hd).right
  have hr : (t.receiver.prepare true).run (t.state s.fs) = _ := prepare_of_absent hn
  constructor
  · rw [hr]
    constructor
    · rintro ⟨st, h⟩
      exact (EStateM.Result.ok.inj h).left.symm
    · intro h
      rw [h]
      exact ⟨_, rfl⟩
  · intro hp
    obtain ⟨i, hi⟩ := inode?_of_getPartialBytes hp
    have hne : t.receiver.partPath ≠ getPartPath earlier := by
      intro he
      rw [he] at hn
      rw [FileSystem.inode?, hn] at hi
      cases hi
    exact ⟨hne, _, hr, FileSystem.same_create hne.symm⟩

namespace Transfer.FileTransferManager

-- Two bytes are offered, one of them arrives, and the transfer is removed.

def twoBytes : FileTransferManager where
  downloadsDir     := .ofString "downloads"
  maxConcurrent    := 1
  maxTotalIncoming := 2

def interruption : List OfferEvent := [
  .validateOffer (.ofString "1") (.ofString "a.txt") 2 none,
  .createReceiver (.ofString "1") (.ofString "ab"),
  .call (.ofString "1") (.prepare false),
  .call (.ofString "1") (.writeChunk 0 0 [7]),
  .removeTransfer (.ofString "1")
]

def again : ValidOffer where
  transferId := .ofString "2"
  size       := 2
  destPath   := .ofString "downloads/a (1).txt"

-- One byte of it is there, nobody holds a slot, and the offer is validated.
structure Reoffered (s : Inbound) (t : Registered) : Prop where
  reachable : (machine .transparent twoBytes).Reachable s
  part      : s.fs.read? (getPartPath (.ofString "downloads/a.txt")) = some [7]
  slots     : s.receivers.rows = []
  valid     : twoBytes.validateOffer s none (.ofString "a.txt") again.size = .ok again.destPath
  created   : (createReceiver s again (.ofString "ab")).receivers.find? again.transferId = some t

theorem exists_reoffered : ∃ s t, Reoffered s t := by
  have h₀ : (machine .transparent twoBytes).Reachable _ := .init ⟨.empty, rfl⟩
  obtain ⟨s, hs, hp⟩ := h₀.exec_any
    (p := fun s => s.fs.read? (getPartPath (.ofString "downloads/a.txt")) = some [7] ∧
      s.receivers.rows.isEmpty ∧
      (twoBytes.validateOffer s none (.ofString "a.txt") again.size).toOption = some again.destPath)
    interruption (by decide +kernel)
  obtain ⟨hr, he, hv⟩ := of_decide_eq_true hp
  refine ⟨s, _, hs, hr, List.isEmpty_iff.mp he, ?_, Table.find?_replace.trans (if_pos rfl)⟩
  cases h : twoBytes.validateOffer s none (.ofString "a.txt") again.size <;> rw [h] at hv <;> cases hv
  rfl

end Transfer.FileTransferManager

theorem reoffer_resumes_not_byte : ∃ s t, Reoffered s t ∧
    ¬∃ st, (t.receiver.prepare true).run (t.state s.fs) = .ok 1 st := by
  obtain ⟨s, t, h⟩ := exists_reoffered
  have hb : getPartialBytes s.fs (getPartPath (.ofString "downloads/a.txt")) = 1 := by
    rw [getPartialBytes, h.part]
    rfl
  have hr := (reoffer_resumes_iff h.valid h.created (.ofString "downloads/a.txt")).left
  rw [hb] at hr
  exact ⟨s, t, h, fun hst => absurd (hr.mp hst) (by decide)⟩

-- The second transfer begins at zero, under another name.
theorem reoffer_starts_anew : ∃ s t st, Reoffered s t ∧
    t.receiver.partPath = .ofString "downloads/a (1).txt.part" ∧
    (t.receiver.prepare true).run (t.state s.fs) = .ok 0 st := by
  obtain ⟨s, t, h⟩ := exists_reoffered
  obtain ⟨-, -, -, hd⟩ := validateOffer_eq_ok h.valid
  have hp : t.receiver.partPath = getPartPath again.destPath :=
    congrArg getPartPath (destPath_of_createReceiver h.created)
  refine ⟨s, t, _, h, hp, prepare_of_absent ?_⟩
  rw [hp]
  exact (resolveSafeDestPath_free hd).right
