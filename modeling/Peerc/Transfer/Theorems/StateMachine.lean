import Peerc.Transfer.Buffered

-- A receiver whose methods are called in any order, with any arguments

open FileSystem BufferedWriter

namespace Transfer.FileReceiver

variable {P : Primitives} {r : FileReceiver} {s s' : ReceiverState} {n : Nat}

-- What holds of a receiver at all times
structure Consistent (r : FileReceiver) (s : ReceiverState) : Prop where
  handle : s.status = .receiving → ∃ i, s.fileHandle = some i
  file {i : Nat} : s.fileHandle = some i → s.fs.inode? r.partPath = some i
  bound  : s.status = .receiving → s.bytesReceived ≤ r.size

-- What holds from the first `prepare` on, when `n` bytes of the file have not been counted
structure Prepared (r : FileReceiver) (n : Nat) (s : ReceiverState) : Prop extends Consistent r s where
  length {i : Nat} : s.fs.inode? r.partPath = some i → (s.fs.content i).length = s.bytesReceived + n

theorem Consistent.prepare (h : Consistent r s) (he : PrepareEffect r s s') : Prepared r 0 s' := by
  -- There is only one file with the name.
  have hu {i j} (hi : s.fs.inode? r.partPath = some i) (hj : s.fs.inode? r.partPath = some j) : j = i :=
    Option.some.inj (hj.symm.trans hi)
  cases he
  case resumed i hi hl =>
    refine { handle := fun _ => ⟨i, rfl⟩, file := fun hj => ?_, bound := fun _ => hl.le, length := fun hj => ?_ }
    · exact Option.some.inj hj ▸ hi
    · rw [hu hi hj, Nat.add_zero]
  case zeroDivision i hi hl =>
    refine { handle := h.handle, file := h.file, bound := fun _ => hl.le, length := fun hj => ?_ }
    rw [hu hi hj, Nat.add_zero]
  case fresh i fs ho =>
    obtain ⟨hi, hc, -⟩ := openWrite_eq_some ho
    refine { handle := fun _ => ⟨i, rfl⟩, file := fun hj => ?_, bound := fun _ => Nat.zero_le _,
             length := fun hj => ?_ }
    · exact Option.some.inj hj ▸ hi
    · cases hi.symm.trans hj
      exact congrArg List.length hc
  case directory hd =>
    refine { handle := h.handle, file := h.file, bound := fun _ => Nat.zero_le _, length := fun hi => ?_ }
    cases (inode?_eq_some.mp hi).symm.trans hd

theorem Prepared.writeChunk {data : Bytes} {res : EStateM.Result Failure ReceiverState Unit}
    (hp : Prepared r n s) (he : WriteEffect r s data res) : Prepared r n res.state := by
  cases he
  case refused => exact hp
  case written i hi hs hl =>
    refine { handle := fun _ => ⟨i, hi⟩, file := hp.file, bound := fun _ => hl, length := fun hk => ?_ }
    cases (hp.file hi).symm.trans hk
    simp only [EStateM.Result.state, content_append, List.length_append, hp.length (hp.file hi)]
    omega

-- Once the handle is closed, only the file counts.
theorem Prepared.closed {status : ReceiverStatus} {fs : FileSystem Str} (hp : Prepared r n s)
    (hs : status ≠ .receiving) (hf : fs.inode? r.partPath = none ∨ fs = s.fs) :
    Prepared r n { s with fileHandle := none, status, fs } where
  handle h := (hs h).elim
  file h := by cases h
  bound h := (hs h).elim
  length {i} hi := by
    rcases hf with hf | rfl
    · cases hf.symm.trans hi
    · exact hp.length hi

theorem Prepared.finish {res : EStateM.Result Failure ReceiverState Bool} (hp : Prepared r n s)
    (he : FinishEffect P r s res) : Prepared r n res.state := by
  cases he
  case finalized fs _ _ _ hf =>
    have hn := (replace_eq_some partPath_ne hf).right.right.left
    exact hp.closed (by rintro ⟨⟩) (.inl <| by rw [inode?, hn]; rfl)
  case discarded => exact hp.closed (by rintro ⟨⟩) (.inl inode?_remove)
  case raised => exact hp.closed (by rintro ⟨⟩) (.inr rfl)

theorem Prepared.abort (hp : Prepared r n s) (cleanup : Bool) : Prepared r n ((r.abort cleanup).run s).state := by
  rw [abort_run]
  cases cleanup
  case false => exact hp.closed (by rintro ⟨⟩) (.inr rfl)
  case true => exact hp.closed (by rintro ⟨⟩) (.inl inode?_remove)

theorem same_prepare (he : PrepareEffect r s s') : Same r.destPath s.fs s'.fs := by
  cases he
  case fresh ho =>
    have hf := (openWrite_eq_some ho).right.right
    exact (same_remove partPath_ne.symm).trans (hf _ partPath_ne.symm)
  all_goals exact .refl

theorem Consistent.same_write {data : Bytes} {res : EStateM.Result Failure ReceiverState Unit}
    (h : Consistent r s) (he : WriteEffect r s data res) : Same r.destPath s.fs res.state.fs := by
  cases he
  case refused => exact .refl
  case written i hi hs hl =>
    exact same_append fun hd => partPath_ne (inode?_inj (h.file hi) hd)

theorem same_remove_part (fs : FileSystem Str) : Same r.destPath fs (fs.remove r.partPath) :=
  same_remove partPath_ne.symm

-- Whatever is called, the destination stays, unless the content has been verified.
theorem Consistent.same_exec (h : Consistent r s) (call : Call) :
    Same r.destPath s.fs ((call.exec P r).run s).state.fs ∨
      call = .finish ∧ ∃ s', (r.finish P).run s = .ok true s' := by
  cases call
  case prepare resume =>
    rw [Call.exec, EStateM.state_discard]
    exact .inl (same_prepare (prepare_effect resume))
  case writeChunk sequence offset data =>
    exact .inl (h.same_write (writeChunk_effect sequence offset data))
  case abort cleanup =>
    rw [Call.exec, abort_run]
    cases cleanup
    case false => exact .inl .refl
    case true => exact .inl (same_remove_part _)
  case finish =>
    rw [Call.exec, EStateM.state_discard]
    have he := finish_effect (P := P) (r := r) (s := s)
    generalize hr : (r.finish P).run s = res at he
    cases he
    case finalized => exact .inr ⟨rfl, _, rfl⟩
    case discarded => exact .inl (same_remove_part _)
    case raised => exact .inl .refl

theorem Prepared.finish_true (hp : Prepared r n s) (h : (r.finish P).run s = .ok true s') :
    ∃ content, s'.fs.read? r.destPath = some content ∧ content.length = r.size + n ∧
      (P.sha256 content).hex.lower = r.expectedChecksum.lower := by
  have he := h ▸ finish_effect (P := P) (r := r) (s := s)
  cases he
  case finalized content fs hb hr hd hf =>
    refine ⟨content, (read?_replace partPath_ne hf).trans hr, ?_, hd⟩
    obtain ⟨i, hi, rfl⟩ := Option.map_eq_some_iff.mp hr
    exact (hp.length hi).trans (congrArg (· + n) hb)

theorem finish_false (h : (r.finish P).run s = .ok false s') :
    Same r.destPath s.fs s'.fs ∧ s'.fs.read? r.partPath = none := by
  have he := h ▸ finish_effect (P := P) (r := r) (s := s)
  cases he
  exact ⟨same_remove_part _, read?_remove⟩

namespace Buffered

variable {bufferSize : Nat} {s s' : BufferedState}

-- The bytes of the file that `bytes_received` does not count after a call: those that were waiting in the file object
-- when `prepare` went on with the file
def uncounted (r : FileReceiver) (s : BufferedState) (n : Nat) : Call → Nat
  | .prepare resume => if Resumes r resume s.fs then (pending s.fileHandle).length else 0
  | _               => n

def uncountedAfter (bufferSize : Nat) (P : Primitives) (r : FileReceiver) :
    (s : BufferedState) → (n : Nat) → List Call → Nat
  | _, n, []            => n
  | s, n, call :: calls =>
    uncountedAfter bufferSize P r ((exec bufferSize P r call).run s).state (uncounted r s n call) calls

-- Nothing waits in the file object when `prepare` may go on with the file.
def Unhurried (bufferSize : Nat) (P : Primitives) (r : FileReceiver) : BufferedState → List Call → Prop
  | _, []            => True
  | s, call :: calls => (call = .prepare true → pending s.fileHandle = []) ∧
    Unhurried bufferSize P r ((exec bufferSize P r call).run s).state calls

theorem uncounted_eq_zero {call : Call} (h : call = .prepare true → pending s.fileHandle = []) :
    uncounted r s 0 call = 0 := by
  cases call
  case prepare resume =>
    rw [uncounted]
    split
    case isTrue hr => rw [h (by rw [hr.left]), List.length_nil]
    case isFalse => rfl
  all_goals rfl

theorem Unhurried.uncountedAfter_eq_zero {calls : List Call} (h : Unhurried bufferSize P r s calls) :
    uncountedAfter bufferSize P r s 0 calls = 0 := by
  induction calls generalizing s
  case nil => rfl
  case cons call calls hi =>
    rw [uncountedAfter, uncounted_eq_zero h.left]
    exact hi h.right

-- The file object is that of the `.part` file.
theorem inode?_of_fileHandle {file : BufferedWriter} (h : Consistent r s.settled) (hf : s.fileHandle = some file) :
    s.fs.inode? r.partPath = some file.inode := by
  have hi : s.settled.fs.inode? r.partPath = some file.inode := h.file (congrArg (Option.map _) hf)
  exact inode?_close.symm.trans hi

theorem inode_lt (h : Consistent r s.settled) (file : BufferedWriter) (hf : s.fileHandle = some file) :
    file.inode < s.fs.fresh :=
  inode?_lt (inode?_of_fileHandle h hf)

theorem length_close {i : Nat} (h : Consistent r s.settled) (hi : s.fs.inode? r.partPath = some i) :
    ((close s.fileHandle s.fs).content i).length = (s.fs.content i).length + (pending s.fileHandle).length := by
  rw [content_close, List.length_append]
  intro file hf
  exact Option.some.inj ((inode?_of_fileHandle h hf).symm.trans hi)

theorem prepared_resume {resume : Bool} (h : Consistent r s.settled) (hr : Resumes r resume s.fs) :
    Prepared r (pending s.fileHandle).length ((prepare r resume).run s).state.settled := by
  obtain ⟨rfl, i, hi, hp, hl⟩ := hr.file
  have hj {j} (hj : (close s.fileHandle s.fs).inode? r.partPath = some j) :
      ((close s.fileHandle s.fs).content j).length = (s.fs.content i).length + (pending s.fileHandle).length := by
    rw [inode?_close] at hj
    cases hi.symm.trans hj
    exact length_close h hi
  by_cases hc : r.chunkSize = 0
  case pos =>
    rw [prepare_run_zeroDivision hi hp hl hc]
    exact { handle := h.handle, file := h.file, bound := fun _ => hl.le, length := hj }
  case neg =>
    rw [prepare_run_resume hi hp hl hc]
    simp only [EStateM.Result.state, BufferedState.settled, close_new, Option.map_some]
    refine { handle := fun _ => ⟨i, rfl⟩, file := fun he => ?_, bound := fun _ => hl.le, length := hj }
    exact Option.some.inj he ▸ inode?_close.trans hi

theorem state_of_refines {α : Type} {x : EStateM Failure BufferedState α} {y : ReceiverM α}
    (h : y.run s.settled = (x.run s).mapState BufferedState.settled) :
    (x.run s).state.settled = (y.run s.settled).state := by
  rw [h]
  cases x.run s <;> rfl

-- A start that is fresh is one of the receiver without buffers.
theorem settled_prepare {resume : Bool} (h : Consistent r s.settled) (hr : ¬Resumes r resume s.fs) :
    ((prepare r resume).run s).state.settled = ((r.prepare false).run s.settled).state := by
  rw [prepare_of_not_resumes hr]
  exact state_of_refines (prepare_refines (fun hr => (Bool.false_ne_true hr).elim) (inode_lt h))

theorem prepared_prepare (h : Consistent r s.settled) (resume : Bool) :
    Prepared r (uncounted r s n (.prepare resume)) ((prepare r resume).run s).state.settled := by
  rw [uncounted]
  split
  case isTrue hr => exact prepared_resume h hr
  case isFalse hr =>
    rw [settled_prepare h hr]
    exact h.prepare (prepare_effect false)

theorem prepared_exec (h : Prepared r n s.settled) (call : Call) :
    Prepared r (uncounted r s n call) ((exec bufferSize P r call).run s).state.settled := by
  cases call
  case prepare resume =>
    rw [exec, EStateM.state_discard]
    exact prepared_prepare h.toConsistent resume
  case writeChunk sequence offset data =>
    rw [exec, state_of_refines (writeChunk_refines sequence offset data s)]
    exact h.writeChunk (writeChunk_effect sequence offset data)
  case finish =>
    rw [exec, EStateM.state_discard, state_of_refines (finish_refines s)]
    exact h.finish finish_effect
  case abort cleanup =>
    rw [exec, state_of_refines (abort_refines cleanup s)]
    exact h.abort cleanup

theorem prepared_run (h : Prepared r n s.settled) (calls : List Call) :
    Prepared r (uncountedAfter bufferSize P r s n calls) (run bufferSize P r s calls).settled := by
  induction calls generalizing s n
  case nil => exact h
  case cons call calls hi => exact hi (prepared_exec h call)

-- The files are those of the receiver without buffers, but for the bytes that wait.
theorem settled_run (h : Prepared r n s.settled) {calls : List Call} (hu : Unhurried bufferSize P r s calls) :
    (run bufferSize P r s calls).settled =
      calls.foldl (fun s call => ((call.exec P r).run s).state) s.settled := by
  induction calls generalizing s n
  case nil => rfl
  case cons call calls hi =>
    rw [List.foldl_cons, ← state_of_refines (exec_refines call hu.left (inode_lt h.toConsistent))]
    exact hi (prepared_exec h call) hu.right

-- A new receiver has no handle, and its status is not `receiving`.
theorem prepared_of_new (fs : FileSystem Str) (resume : Bool) (calls : List Call) :
    Prepared r (uncountedAfter bufferSize P r { fs } 0 (.prepare resume :: calls))
      (run bufferSize P r { fs } (.prepare resume :: calls)).settled := by
  have h : Consistent r ({ fs } : BufferedState).settled :=
    { handle := fun h => (by cases h), file := fun h => (by cases h), bound := fun h => (by cases h) }
  have hp := prepared_prepare (n := 0) h resume
  rw [← EStateM.state_discard] at hp
  exact prepared_run hp calls

-- The bytes that wait are for the `.part` file.
theorem same_settled (h : Consistent r s.settled) : Same r.destPath s.fs s.settled.fs :=
  same_close fun _ hf hd => partPath_ne (inode?_inj (inode?_of_fileHandle h hf) hd)

theorem settled_same_prepare (h : Consistent r s.settled) (resume : Bool) :
    Same r.destPath s.settled.fs ((prepare r resume).run s).state.settled.fs := by
  by_cases hr : Resumes r resume s.fs
  case pos =>
    obtain ⟨rfl, i, hi, hp, hl⟩ := hr.file
    by_cases hc : r.chunkSize = 0
    case pos =>
      rw [prepare_run_zeroDivision hi hp hl hc]
      exact .refl
    case neg =>
      rw [prepare_run_resume hi hp hl hc]
      simp only [EStateM.Result.state, BufferedState.settled, close_new]
      exact .refl
  case neg =>
    rw [settled_prepare h hr]
    exact same_prepare (prepare_effect false)

theorem settled_same_exec (bufferSize : Nat) (h : Consistent r s.settled) (call : Call) :
    Same r.destPath s.settled.fs ((exec bufferSize P r call).run s).state.settled.fs ∨
      call = .finish ∧ ∃ s', (finish P r).run s = .ok true s' := by
  by_cases hc : ∃ resume, call = .prepare resume
  case pos =>
    obtain ⟨resume, rfl⟩ := hc
    rw [exec, EStateM.state_discard]
    exact .inl (settled_same_prepare h resume)
  case neg =>
    rw [state_of_refines (exec_refines call (fun he => (hc ⟨true, he⟩).elim) (inode_lt h))]
    refine (h.same_exec call).imp_right ?_
    rintro ⟨hf, s', hs⟩
    obtain ⟨s', hs, -⟩ := finish_refines.of_ok hs
    exact ⟨hf, s', hs⟩

theorem same_exec (h : Prepared r n s.settled) (call : Call) :
    Same r.destPath s.fs ((exec bufferSize P r call).run s).state.fs ∨
      call = .finish ∧ ∃ s', (finish P r).run s = .ok true s' := by
  have hp : Prepared r _ ((exec bufferSize P r call).run s).state.settled := prepared_exec h call
  refine (settled_same_exec bufferSize h.toConsistent call).imp_left fun hs => ?_
  exact (same_settled h.toConsistent).trans (hs.trans (same_settled hp.toConsistent).symm)

theorem prepared_finish {ok : Bool} (h : Prepared r n s.settled)
    (hs : (r.finish P).run s.settled = .ok ok s'.settled) : Prepared r n s'.settled := by
  have hp := h.finish (finish_effect (P := P))
  rwa [hs] at hp

theorem finish_true (h : Prepared r n s.settled) (hf : (finish P r).run s = .ok true s') :
    ∃ content, s'.fs.read? r.destPath = some content ∧ content.length = r.size + n ∧
      (P.sha256 content).hex.lower = r.expectedChecksum.lower := by
  have hs := finish_refines.ok hf
  rw [← (same_settled (prepared_finish h hs).toConsistent).read]
  exact h.finish_true hs

theorem finish_false (h : Prepared r n s.settled) (hf : (finish P r).run s = .ok false s') :
    Same r.destPath s.fs s'.fs ∧ s'.fs.read? r.partPath = none := by
  have hs := finish_refines.ok hf
  have hp := prepared_finish h hs
  obtain ⟨hd, hr⟩ := FileReceiver.finish_false hs
  refine ⟨(same_settled h.toConsistent).trans (hd.trans (same_settled hp.toConsistent).symm), ?_⟩
  rw [read?_eq_none] at hr ⊢
  exact inode?_close.symm.trans hr

end Buffered
end Transfer.FileReceiver

-- After any calls `n` bytes of the `.part` file are not counted in `bytes_received`.
open Transfer FileReceiver.Buffered in
theorem file_receiver_state_machine (bufferSize : Nat) (P : Primitives) (r : FileReceiver) (fs : FileSystem Str)
    (resume : Bool) (calls : List FileReceiver.Call) :
    let s := run bufferSize P r { fs } (.prepare resume :: calls)
    let n := uncountedAfter bufferSize P r { fs } 0 (.prepare resume :: calls)
    (s.status = .receiving →
      (∃ content, s.fs.read? r.partPath = some content ∧
        content.length + (pending s.fileHandle).length = s.bytesReceived + n ∧
        (content.length = s.bytesReceived ↔ (pending s.fileHandle).length = n)) ∧
      s.bytesReceived ≤ r.size) ∧
    (∀ sequence offset data e s',
      (writeChunk bufferSize r sequence offset data).run s = .error e s' → s' = s) ∧
    (∀ call : FileReceiver.Call, Same r.destPath s.fs ((exec bufferSize P r call).run s).state.fs ∨
      call = .finish ∧ ∃ s', (finish P r).run s = .ok true s') ∧
    (∀ s', (finish P r).run s = .ok true s' →
      ∃ content, s'.fs.read? r.destPath = some content ∧ content.length = r.size + n ∧
        (content.length = r.size ↔ n = 0) ∧
        (P.sha256 content).hex.lower = r.expectedChecksum.lower) ∧
    (∀ s', (finish P r).run s = .ok false s' →
      Same r.destPath s.fs s'.fs ∧ s'.fs.read? r.partPath = none) ∧
    (Unhurried bufferSize P r { fs } (.prepare resume :: calls) → n = 0) := by
  intro s n
  have hp : r.Prepared n s.settled := prepared_of_new fs resume calls
  refine ⟨fun hs => ⟨?_, hp.bound hs⟩, fun sequence offset data e s' h => ?_, same_exec hp, fun s' h => ?_,
    fun _ => finish_false hp, Unhurried.uncountedAfter_eq_zero⟩
  · obtain ⟨i, hi⟩ := hp.handle hs
    have hf : s.fs.inode? r.partPath = some i := inode?_close.symm.trans (hp.file hi)
    have hl : (s.fs.content i).length + (pending s.fileHandle).length = s.bytesReceived + n :=
      (length_close hp.toConsistent hf).symm.trans (hp.length (hp.file hi))
    exact ⟨s.fs.content i, read?_of_inode? hf, hl, by omega⟩
  · exact writeChunk_error h
  · obtain ⟨content, hr, hl, hd⟩ := finish_true hp h
    exact ⟨content, hr, hl, by omega, hd⟩

-- A byte waits in the file object, and is no part of the file yet. A second one waits when `prepare` goes on with that
-- file, which then has it and the byte that comes in its place.
open Transfer FileReceiver.Buffered in
theorem file_receiver_resumes_unflushed :
    let r : FileReceiver := ⟨2, (Primitives.transparent.sha256 [1, 2, 3]).hex, Str.ofString "a", 65536⟩
    let s₁ := run 8192 .transparent r { fs := .empty } [.prepare false, .writeChunk 0 0 [1]]
    let s₂ := run 8192 .transparent r s₁
      [.abort false, .prepare true, .writeChunk 0 1 [2], .prepare true, .writeChunk 0 1 [3]]
    (s₁.status = .receiving ∧ s₁.bytesReceived = 1 ∧ s₁.fs.read? r.partPath = some []) ∧
    ∃ s', (finish .transparent r).run s₂ = .ok true s' ∧ s'.fs.read? r.destPath = some [1, 2, 3] :=
  ⟨⟨rfl, rfl, rfl⟩, _, rfl, rfl⟩
