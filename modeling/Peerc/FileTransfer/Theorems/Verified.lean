import Peerc.FileTransfer.Invariant

-- What the session reports as complete

namespace TransferState

variable {P : Primitives} {downloadsDir : Str} {s : TransferState}

theorem kept_of_run (run : (machine P downloadsDir).Run Disjoint s) : Kept P s := by
  refine run.invariant ?_ fun h hg hs => h.step hg (step_effect hs)
  rintro _ ⟨fs, rfl⟩
  exact kept_init fs

end TransferState

open TransferState in
theorem verified_content_reported {P : Primitives} {downloadsDir : Str} {s : TransferState}
    (run : (machine P downloadsDir).Run Disjoint s) :
    ∀ c ∈ s.completions, ∀ t, c.transfer = .inr t → c.success →
      c.filepath = some t.destPath ∧ c.content = some t.accepted ∧
      (t.accepted.length : Int) = t.size ∧
      t.expectedChecksum.map (·.val) = some (P.sha256 t.accepted).hex :=
  (kept_of_run run).reported

namespace TransferState.Names

def addrKey : Str :=
  Str.ofString "10.0.0.2:5555"

def downloadsDir : Str :=
  Str.ofString "d"

-- The offer of a file with one byte
def offer (id filename checksum : String) : Packet :=
  .json <| .obj [
    (.ofString "type", .str (.ofString "file_offer")),
    (.ofString "transfer_id", .str (.ofString id)),
    (.ofString "filename", .str (.ofString filename)),
    (.ofString "size", .int 1),
    (.ofString "checksum", .str (.ofString checksum))
  ]

def done (id : String) : Packet :=
  .json <| .obj [
    (.ofString "type", .str (.ofString "file_done")),
    (.ofString "transfer_id", .str (.ofString id)),
    (.ofString "checksum", .str (.ofString ""))
  ]

def chunk (id : String) (sequence : Nat) (data : Bytes) : Packet :=
  .fileData (.ofString id) sequence 0 data

def receive (p : Packet) : TransferEvent :=
  .receive addrKey none p

-- Two offers on one connection, both accepted at once: the destination of the first one is the staging
-- name of the second one.
def offers : List TransferEvent :=
  [receive (offer "1" "a.part" "01"), .decide 0 true, receive (offer "2" "a" "01"), .decide 0 true]

-- The first transfer is completed, over the staging file of the second one.
def completed : List TransferEvent :=
  offers ++ [receive (chunk "1" 0 [1]), receive (done "1"), .ackSent 0]

end TransferState.Names

-- The second transfer is reported as complete with what the first one has received.
open TransferState Names in
theorem verified_content_reported_swapped :
    ∃ s, (machine .transparent downloadsDir).Reachable s ∧
      ∃ c t, s.completions.head? = some c ∧ c.transfer = .inr t ∧ c.success = true ∧
        c.content = some [1] ∧ t.accepted = [2] := by
  let events := completed ++ [receive (chunk "2" 0 [2]), receive (done "2"), .ackSent 0]
  have he : ((machine .transparent downloadsDir).exec (fun _ _ => True) { fs := .empty } events).isSome := by
    decide +kernel
  refine ⟨_, .exec (.init ⟨_, rfl⟩) events (Option.some_get he).symm, ?_⟩
  exact ⟨_, _, rfl, rfl, by decide +kernel, by decide +kernel, by decide +kernel⟩

-- One transfer alone
open TransferState Names in
theorem verified_content_reported_single :
    ∃ s, (machine .transparent downloadsDir).Run Disjoint s ∧
      ∃ c t, c ∈ s.completions ∧ c.transfer = .inr t ∧ c.success ∧ c.content = some t.accepted := by
  let events := [receive (offer "1" "a" "01"), .decide 0 true, receive (chunk "1" 0 [1]),
    receive (done "1"), .ackSent 0]
  have he : ((machine .transparent downloadsDir).exec Disjoint { fs := .empty } events).isSome := by
    decide +kernel
  have h₀ : (machine .transparent downloadsDir).Run Disjoint { fs := .empty } := .init ⟨_, rfl⟩
  have hr := h₀.exec events (Option.some_get he).symm
  have hs := verified_content_reported hr _ List.mem_cons_self _ rfl rfl
  exact ⟨_, hr, _, _, List.mem_cons_self, rfl, rfl, hs.right.left⟩
