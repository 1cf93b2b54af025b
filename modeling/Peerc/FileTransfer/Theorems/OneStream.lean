import Peerc.FileTransfer.Upload

open Protocol Transfer

namespace Upload

variable {P : Primitives} {u u' : Upload} {phase : SendPhase} {i : Nat}

-- No reply has been handled.
structure Idle (u : Upload) : Prop where
  tasks    : u.tasks = []
  streams  : u.streams = 0
  chunks   : u.chunksWritten = []
  reports  : u.reports = []
  offering : u.registered → ¬u.offering

-- An acceptance has been handled, and its task has not ended.
structure Streaming (u : Upload) (phase : SendPhase) : Prop where
  tasks    : u.tasks = [phase]
  streams  : u.streams = 1
  chunks   : u.chunksWritten ++ u.unsent phase = u.chunks
  reports  : u.reports = []
  offering : ¬u.offering
  status   : u.status ≠ .offered

structure Ended (u : Upload) : Prop where
  tasks      : u.tasks = []
  streams    : u.streams ≤ 1
  chunks     : u.chunksWritten <+: u.chunks
  reports    : u.reports.length ≤ 1
  offering   : ¬u.offering
  registered : ¬u.registered

inductive Orderly (u : Upload) : Prop
  | idle (h : Idle u)
  | streaming (phase : SendPhase) (h : Streaming u phase)
  | ended (h : Ended u)

theorem Orderly.bounds : Orderly u → u.streams ≤ 1 ∧ u.chunksWritten <+: u.chunks ∧ u.reports.length ≤ 1
  | idle h        => ⟨by simp [h.streams], h.chunks ▸ List.nil_prefix, by simp [h.reports]⟩
  | streaming _ h => ⟨h.streams.le, ⟨_, h.chunks⟩, by simp [h.reports]⟩
  | ended h       => ⟨h.streams, h.chunks, h.reports⟩

theorem Orderly.offerSent {ok : Bool} (h : Orderly u) (offering : u.offering) :
    Orderly { u with offering := false, registered := ok } := by
  cases h
  case idle h => exact .idle ⟨h.tasks, h.streams, h.chunks, h.reports, fun _ => Bool.false_ne_true⟩
  case streaming h => exact absurd offering h.offering
  case ended h => exact absurd offering h.offering

theorem Orderly.handleAccept (h : Orderly u) (registered : u.registered) (status : u.status = .offered) :
    Orderly u.handleAccept := by
  cases h
  case idle h =>
    refine .streaming .created ⟨?_, ?_, ?_, h.reports, h.offering registered, ?_⟩
    · simp only [Upload.handleAccept, h.tasks, List.nil_append]
    · simp only [Upload.handleAccept, h.streams]
    · exact congrArg (· ++ u.chunks) h.chunks
    · exact UploadStatus.noConfusion
  case streaming h => exact absurd status h.status
  case ended h => exact absurd registered h.registered

theorem Orderly.handleReject (h : Orderly u) (registered : u.registered) (status : u.status = .offered) :
    Orderly u.handleReject := by
  cases h
  case idle h =>
    refine .ended ⟨h.tasks, ?_, ?_, ?_, h.offering registered, Bool.false_ne_true⟩
    · exact h.streams.trans_le (Nat.zero_le _)
    · exact List.prefix_iff_exists_append_eq.mpr ⟨_, congrArg (· ++ u.chunks) h.chunks⟩
    · simp [Upload.handleReject, notifyComplete, h.reports]
  case streaming h => exact absurd status h.status
  case ended h => exact absurd registered h.registered

theorem Orderly.handleCompleteAck {success : Bool} :
    Orderly u → Orderly (u.handleCompleteAck success)
  | idle h        => .idle ⟨h.tasks, h.streams, h.chunks, h.reports, h.offering⟩
  | streaming _ h => .streaming _ ⟨h.tasks, h.streams, h.chunks, h.reports, h.offering, h.status⟩
  | ended h       => .ended ⟨h.tasks, h.streams, h.chunks, h.reports, h.offering, h.registered⟩

-- The only task ends, and reports at most once.
theorem Streaming.ended (h : Streaming u phase) {status : UploadStatus} {reports : List UploadReport}
    (hr : reports.length ≤ 1) : Ended ({ u with status, reports }.finish 0) where
  tasks      := by simp [finish, h.tasks]
  streams    := h.streams.le
  chunks     := ⟨_, h.chunks⟩
  reports    := hr
  offering   := h.offering
  registered := Bool.false_ne_true

theorem Streaming.proceeds (h : Streaming u phase) (effect : ProceedEffect P u 0 (u.unsent phase) u') :
    Orderly u' := by
  have hc := h.chunks
  generalize hu : u.unsent phase = rest at effect hc
  cases effect
  case chunk chunk rest payload encoded =>
    refine .streaming (.sendingChunk rest) ⟨?_, h.streams, ?_, h.reports, h.offering, h.status⟩
    · simp [suspend, write, h.tasks]
    · show (u.written ++ [Written.chunk chunk payload]).filterMap Written.chunk? ++ rest = u.chunks
      rw [List.filterMap_append, List.append_assoc]
      exact hc
  case done =>
    refine .streaming .sendingDone ⟨?_, h.streams, ?_, h.reports, h.offering, h.status⟩
    · simp [suspend, write, h.tasks]
    · show (u.written ++ [Written.done _]).filterMap Written.chunk? ++ [] = u.chunks
      rw [List.filterMap_append, List.append_assoc]
      exact hc
  case awaitAck =>
    refine .streaming .awaitingAck ⟨?_, h.streams, hc, h.reports, h.offering, ?_⟩
    · simp [awaitAck, suspend, h.tasks]
    · exact UploadStatus.noConfusion
  case failed error => exact .ended (h.ended (by simp [h.reports]))
  case raised => exact .ended (h.ended (by simp [h.reports]))

theorem Streaming.resume (h : Streaming u phase) (effect : ResumeEffect P u 0 phase u') : Orderly u' := by
  cases effect
  case proceeds effect => exact h.proceeds effect
  case failed error => exact .ended (h.ended (by simp [h.reports]))
  case completed success =>
    cases success
    all_goals exact .ended (h.ended (by simp [h.reports]))

theorem Orderly.resume (h : Orderly u) (task : u.tasks[i]? = some phase)
    (effect : ResumeEffect P u i phase u') : Orderly u' := by
  cases h
  case idle h => simp [h.tasks] at task
  case ended h => simp [h.tasks] at task
  case streaming h =>
    rw [h.tasks, List.getElem?_singleton] at task
    split at task
    case isTrue hi =>
      cases task
      subst hi
      exact h.resume effect
    case isFalse => cases task

end Upload

namespace UploadState

variable {P : Primitives} {s s' : UploadState} {e : UploadEvent} {u : Upload}

-- Acceptances and rejections of a transfer in `_outgoing` are handled while it has the status `"offered"`.
def AnswersOffer (s : UploadState) : UploadEvent → Prop
  | .receive p =>
    p.type? = some (.ofString "file_accept") ∨ p.type? = some (.ofString "file_reject") →
      ∀ u ∈ s.outgoing? p, u.status = .offered
  | _ => True

instance decidableAnswersOffer (s : UploadState) : (e : UploadEvent) → Decidable (s.AnswersOffer e)
  | .receive _                                   => inferInstanceAs (Decidable (_ → _))
  | .offerFile .. | .offerSent .. | .resume .. => .isTrue trivial

theorem orderly_step (h : ∀ u ∈ s.uploads.rows, u.Orderly) (guard : s.AnswersOffer e)
    (effect : Effect P s e s') : ∀ u ∈ s'.uploads.rows, u.Orderly := by
  cases effect
  case unchanged => exact h
  case offered offered =>
    subst offered
    exact forall_put h (.idle ⟨rfl, rfl, rfl, rfl, fun hr => (Bool.false_ne_true hr).elim⟩)
  case offerSent found offering => exact forall_put h ((h _ (Table.mem_of_find? found)).offerSent offering)
  case accepted found type =>
    exact forall_put h ((h _ (mem_of_outgoing? found)).handleAccept (registered_of_outgoing? found)
      (guard (.inl type) _ found))
  case rejected found type =>
    exact forall_put h ((h _ (mem_of_outgoing? found)).handleReject (registered_of_outgoing? found)
      (guard (.inr type) _ found))
  case acknowledged found success => exact forall_put h (h _ (mem_of_outgoing? found)).handleCompleteAck
  case resumed found task effect => exact forall_put h ((h _ (Table.mem_of_find? found)).resume task effect)

theorem orderly (h : (machine P).Run AnswersOffer s) : ∀ u ∈ s.uploads.rows, u.Orderly := by
  induction h
  case init h =>
    subst h
    exact nofun
  case step guard step hi => exact orderly_step hi guard (step_effect step)

end UploadState

theorem one_stream_one_outcome (P : Primitives) (s : UploadState)
    (h : (UploadState.machine P).Run UploadState.AnswersOffer s) (u : Upload) (hu : u ∈ s.uploads.rows) :
    u.streams ≤ 1 ∧
    (∃ chunks, readChunks u.content 0 uploadChunkSize = .ok chunks ∧ u.chunksWritten <+: chunks) ∧
    u.reports.length ≤ 1 := by
  obtain ⟨hs, hc, hr⟩ := (UploadState.orderly h u hu).bounds
  exact ⟨hs, ⟨u.chunks, Upload.readChunks_eq u, hc⟩, hr⟩

namespace UploadState

-- A file of one byte, which the peer accepts once or twice

def smallId : Text :=
  uuidText (List.replicate 16 0)

def smallOffer : UploadEvent :=
  .offerFile smallId [] [] (.ofString "a.txt") [7] true ⟨0⟩

def acceptance : UploadEvent :=
  .receive (.json (makeFileAccept smallId ⟨0⟩))

def goOn (task : Nat) : UploadEvent :=
  .resume smallId task ⟨true, false, true⟩

def acceptedOnce : List UploadEvent :=
  [smallOffer, .offerSent smallId true, acceptance, goOn 0, goOn 0, goOn 0]

def sentOnce (s : UploadState) : Bool :=
  s.uploads.rows.any fun u => u.chunksWritten.map Chunk.sequence = [0]

def acceptedTwice : List UploadEvent :=
  [smallOffer, .offerSent smallId true, acceptance, acceptance, goOn 0, goOn 1, goOn 0, goOn 1, goOn 0, goOn 1,
    .receive (.json (makeFileCompleteAck smallId true (.ofString ""))), goOn 0, goOn 0]

def sentTwice (s : UploadState) : Bool :=
  s.uploads.rows.any fun u => u.streams = 2 ∧ u.chunksWritten.map Chunk.sequence = [0, 0] ∧
    u.chunks.map Chunk.sequence = [0] ∧ u.reports.length = 2

end UploadState

theorem one_stream_one_outcome_accepted :
    ∃ s, (UploadState.machine .transparent).Run UploadState.AnswersOffer s ∧ ∃ u ∈ s.uploads.rows,
      u.chunksWritten.map Chunk.sequence = [0] ∧ u.streams ≤ 1 ∧ u.reports.length ≤ 1 := by
  have h₀ : (UploadState.machine .transparent).Run UploadState.AnswersOffer _ := .init rfl
  obtain ⟨s, hs, hp⟩ := h₀.exec_any (p := UploadState.sentOnce) UploadState.acceptedOnce
    (by decide +kernel)
  obtain ⟨u, hu, hp⟩ := List.any_eq_true.mp hp
  obtain ⟨hk, -, hr⟩ := one_stream_one_outcome .transparent s hs u hu
  exact ⟨s, hs, u, hu, of_decide_eq_true hp, hk, hr⟩

theorem two_streams_two_outcomes :
    ∃ s, (UploadState.machine .transparent).Reachable s ∧ ∃ u ∈ s.uploads.rows,
      u.streams = 2 ∧ u.reports.length = 2 ∧
      ¬∃ chunks, readChunks u.content 0 uploadChunkSize = .ok chunks ∧ u.chunksWritten <+: chunks := by
  have h₀ : (UploadState.machine .transparent).Reachable _ := .init rfl
  obtain ⟨s, hs, hp⟩ := h₀.exec_any (p := UploadState.sentTwice) UploadState.acceptedTwice
    (by decide +kernel)
  obtain ⟨u, hu, hp⟩ := List.any_eq_true.mp hp
  obtain ⟨h₂, hw, hc, hr⟩ := of_decide_eq_true hp
  refine ⟨s, hs, u, hu, h₂, hr, ?_⟩
  rintro ⟨chunks, hk, hx⟩
  cases (Upload.readChunks_eq u).symm.trans hk
  have hl := (hx.map Chunk.sequence).length_le
  simp [hw, hc] at hl

