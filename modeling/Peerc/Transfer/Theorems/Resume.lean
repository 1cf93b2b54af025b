import Peerc.Transfer.Effect
import Peerc.Transfer.Sender

-- A transfer that is cut and resumed any number of times

open FileSystem

namespace Transfer

-- The receiver for a file that a sender offers
def FileSender.receiver (P : Primitives) (sender : FileSender) (destPath : Str) : FileReceiver where
  size             := sender.size
  expectedChecksum := sender.checksum P
  destPath         := destPath
  chunkSize        := sender.chunkSize

namespace FileReceiver

variable (P : Primitives) (sender : FileSender) (r : FileReceiver)

def stream (chunks : List Chunk) : ReceiverM Unit :=
  chunks.forM fun chunk => r.writeChunk chunk.sequence chunk.offset chunk.data

-- What is on the disk of a write that does not come to its end
def tear (data : Bytes) : ReceiverM Unit :=
  modify fun s => { s with fs := (s.fileHandle.map (s.fs.append · data)).getD s.fs }

-- An attempt that is cut after `n` chunks, and `m` bytes of the next one
def interrupted (n m : Nat) : ReceiverM Unit := do
  let offset ← r.prepare true
  let chunks ← liftExcept (sender.getChunks offset)
  r.stream (chunks.take n)
  if let some chunk := chunks[n]? then
    tear (chunk.data.take m)

def completed : ReceiverM Bool := do
  let offset ← r.prepare true
  let chunks ← liftExcept (sender.getChunks offset)
  r.stream chunks
  r.finish P

-- Each attempt has a new receiver, and finds the files that the one before has left.
def attempt {α : Type} (x : ReceiverM α) : EStateM Failure (FileSystem Str) α := fun fs =>
  (x.run { fs }).mapState (·.fs)

def attempts (cuts : List (Nat × Nat)) : EStateM Failure (FileSystem Str) Unit :=
  cuts.forM fun (n, m) => attempt (r.interrupted sender n m)

end FileReceiver

section

variable {P : Primitives} {source : Bytes} {r : FileReceiver} {fs : FileSystem Str}
  {s : ReceiverState} {chunks : List Chunk} {off seq : Nat}

-- The chunks that are left when the sender has come to an offset
inductive Genuine (source : Bytes) : (off seq : Nat) → List Chunk → Prop
  | nil {seq : Nat} : Genuine source source.length seq []
  | cons {off seq : Nat} {data : Bytes} {chunks : List Chunk} (h : data <+: source.drop off)
      (tl : Genuine source (off + data.length) (seq + 1) chunks) :
    Genuine source off seq (⟨seq, off, data⟩ :: chunks)

theorem genuine_cons {c : Chunk} :
    Genuine source off seq (c :: chunks) ↔
      c.sequence = seq ∧ c.offset = off ∧ c.data <+: source.drop off ∧
        Genuine source (off + c.data.length) (seq + 1) chunks := by
  constructor
  case mp =>
    intro h
    generalize hl : c :: chunks = l at h
    cases h
    case nil => cases hl
    case cons data tl hd hg =>
      cases hl
      exact ⟨rfl, rfl, hd, hg⟩
  case mpr =>
    rintro ⟨rfl, rfl, hd, hg⟩
    exact .cons hd hg

theorem Genuine.le (h : Genuine source off seq chunks) : off ≤ source.length := by
  induction h
  case nil => exact Nat.le_refl _
  case cons hi => exact (Nat.le_add_right _ _).trans hi

-- The chunks determine what is left of the file.
theorem Genuine.drop_eq (h : Genuine source off seq chunks) :
    source.drop off = (chunks.map Chunk.data).flatten := by
  induction h
  case nil => exact List.drop_length
  case cons off seq data chunks hd _ hi =>
    rw [List.map_cons, List.flatten_cons, ← hi, ← List.drop_drop]
    obtain ⟨rest, hr⟩ := hd
    rw [← hr, List.drop_left]

theorem readLoop_genuine {c : Nat} (hc : 0 < c) {fuel : Nat} (ho : off ≤ source.length)
    (hf : source.length - off ≤ fuel) :
    Genuine source off seq (readLoop c fuel (source.drop off) off seq) := by
  induction fuel generalizing off seq
  case zero =>
    obtain rfl : off = source.length := by omega
    exact .nil
  case succ fuel hi =>
    simp only [readLoop]
    split
    case isTrue h =>
      have hl := congrArg List.length h
      simp only [List.length_take, List.length_drop, List.length_nil] at hl
      obtain rfl : off = source.length := by omega
      exact .nil
    case isFalse h =>
      have hn : 0 < ((source.drop off).take c).length := List.length_pos_iff.mpr h
      have hl : ((source.drop off).take c).length ≤ source.length - off := by
        rw [List.length_take, List.length_drop]
        omega
      have hd : (source.drop off).drop c = source.drop (off + ((source.drop off).take c).length) := by
        rw [List.drop_drop, List.length_take, List.length_drop]
        rcases Nat.le_total c (source.length - off) with hm | hm
        · rw [Nat.min_eq_left hm]
        · rw [Nat.min_eq_right hm, List.drop_of_length_le (by omega), List.drop_of_length_le (by omega)]
      rw [hd]
      exact .cons (List.take_prefix _ _) (hi (by omega) (by omega))

theorem getChunks_genuine {sender : FileSender} (hc : 0 < sender.chunkSize) (ho : off ≤ sender.size) :
    ∃ chunks, sender.getChunks off = .ok chunks ∧
      Genuine sender.source off (off / sender.chunkSize) chunks := by
  have hn : ¬off > sender.source.length := Nat.not_lt.mpr ho
  refine ⟨_, ?_, readLoop_genuine hc ho (Nat.sub_le _ _)⟩
  simp only [FileSender.getChunks, readChunks, if_neg hn, if_neg hc.ne']
  rfl

namespace FileReceiver

-- What a receiver of the file leaves behind: a beginning of the file, if anything
structure Ready (source : Bytes) (r : FileReceiver) (fs : FileSystem Str) : Prop where
  dest : fs.entry r.destPath ≠ some .directory
  part : fs.entry r.partPath ≠ some .directory
  read {content : Bytes} : fs.read? r.partPath = some content → content <+: source

-- A receiver that expects the chunk `seq` at `off`
structure At (source : Bytes) (r : FileReceiver) (s : ReceiverState) (off seq : Nat) : Prop where
  dest     : s.fs.entry r.destPath ≠ some .directory
  status   : s.status = .receiving
  handle   : ∃ i, s.fileHandle = some i ∧ s.fs.inode? r.partPath = some i ∧
    s.fs.content i = source.take off
  bytes    : s.bytesReceived = off
  index    : s.expectedChunkIndex = seq
  le       : off ≤ source.length

namespace At

theorem tear (ha : At source r s off seq) {data : Bytes} (hd : data <+: source.drop off) :
    ∃ s', (FileReceiver.tear data).run s = .ok () s' ∧ Ready source r s'.fs := by
  obtain ⟨i, hh, hi, hc⟩ := ha.handle
  refine ⟨{ s with fs := s.fs.append i data }, ?_, ha.dest, ?_, fun {content} hr => ?_⟩
  · simp only [FileReceiver.tear, EStateM.run_modify, hh]
    rfl
  · have he : (s.fs.append i data).entry r.partPath = some (.file i) := inode?_eq_some.mp hi
    exact fun hn => by cases he.symm.trans hn
  · cases (read?_append hi).symm.trans hr
    rw [hc]
    calc source.take off ++ data
      _ <+: source.take off ++ source.drop off := (List.prefix_append_right_inj _).mpr hd
      _ = source := List.take_append_drop off source

-- Nothing written is a write that is torn at once.
theorem ready (ha : At source r s off seq) : Ready source r s.fs := by
  obtain ⟨i, hh, hi, hc⟩ := ha.handle
  have he := inode?_eq_some.mp hi
  refine ⟨ha.dest, fun hn => (by cases he.symm.trans hn), fun {content} hr => ?_⟩
  cases (read?_of_inode? hi).symm.trans hr
  exact hc ▸ List.take_prefix _ _

theorem write (ha : At source r s off seq) (hs : r.size = source.length) {data : Bytes}
    (hd : data <+: source.drop off) :
    ∃ s', (r.writeChunk seq off data).run s = .ok () s' ∧
      At source r s' (off + data.length) (seq + 1) := by
  obtain ⟨i, hh, hi, hc⟩ := ha.handle
  have hl : off + data.length ≤ source.length := by
    have := hd.length_le
    have := ha.le
    rw [List.length_drop] at *
    omega
  obtain ⟨hdest, hst, -, rfl, rfl, -⟩ := ha
  refine ⟨_, writeChunk_run hh hst (hs ▸ hl), hdest, hst, ⟨i, hh, hi, ?_⟩, rfl, rfl, hl⟩
  calc (s.fs.append i data).content i
    _ = s.fs.content i ++ data := Function.update_self ..
    _ = source.take (s.bytesReceived + data.length) := by
      rw [hc, List.take_add, ← List.prefix_iff_eq_take.mp hd]

theorem stream (ha : At source r s off seq) (hs : r.size = source.length)
    (hg : Genuine source off seq chunks) (n : Nat) :
    ∃ s' off' seq', (r.stream (chunks.take n)).run s = .ok () s' ∧ At source r s' off' seq' ∧
      Genuine source off' seq' (chunks.drop n) := by
  induction hg generalizing s n
  case nil => exact ⟨s, _, _, by rw [List.take_nil]; rfl, ha, by rw [List.drop_nil]; exact .nil⟩
  case cons off seq data chunks hd tl hi =>
    cases n
    case zero => exact ⟨s, _, _, rfl, ha, .cons hd tl⟩
    case succ n =>
      obtain ⟨s₁, h₁, ha₁⟩ := ha.write hs hd
      obtain ⟨s₂, off', seq', h₂, ha₂, hg₂⟩ := hi ha₁ n
      refine ⟨s₂, off', seq', ?_, ha₂, hg₂⟩
      have hr : r.stream ((⟨seq, off, data⟩ :: chunks).take (n + 1)) =
        (r.writeChunk seq off data >>= fun _ => r.stream (chunks.take n)) := rfl
      rw [hr, EStateM.run_bind, h₁]
      exact h₂

end At

theorem prepare_at (hr : Ready source r fs) (hs : r.size = source.length) (hc : 0 < r.chunkSize) :
    ∃ off s, (r.prepare true).run { fs } = .ok off s ∧ At source r s off (off / r.chunkSize) := by
  by_cases h : 0 < getPartialBytes fs r.partPath ∧ getPartialBytes fs r.partPath < r.size
  case pos =>
    obtain ⟨hp, hl⟩ := h
    obtain ⟨i, hi⟩ := inode?_of_getPartialBytes hp
    rw [getPartialBytes_of_inode? hi] at hp hl
    refine ⟨_, _, prepare_run_resume hi hp hl hc.ne', hr.dest, rfl, ⟨i, rfl, hi, ?_⟩, rfl, rfl, ?_⟩
    · exact List.prefix_iff_eq_take.mp (hr.read (read?_of_inode? hi))
    · exact hs ▸ hl.le
  case neg =>
    cases ho : (fs.remove r.partPath).openWrite r.partPath
    case none =>
      have hd := openWrite_eq_none.mp ho
      rw [entry_remove] at hd
      split at hd
      · cases hd
      · exact (hr.part hd).elim
    case some p =>
      obtain ⟨i, fs'⟩ := p
      have hf : (r.prepare true).run { fs } = _ := prepare_run_fresh (fun hn => h hn.right) ho
      obtain ⟨hi, he, hm⟩ := openWrite_eq_some ho
      have hd := (same_remove partPath_ne.symm).trans (hm _ partPath_ne.symm) |>.entry
      refine ⟨0, _, hf, hd ▸ hr.dest, rfl, ⟨i, rfl, hi, he⟩, rfl, ?_, Nat.zero_le _⟩
      exact (Nat.zero_div _).symm

end FileReceiver
end

namespace FileReceiver

variable {P : Primitives} {sender : FileSender} {destPath : Str} {fs : FileSystem Str}

theorem attempt_run {α : Type} {x : ReceiverM α} {a : α} {s : ReceiverState}
    (h : x.run { fs } = .ok a s) : (attempt x).run fs = .ok a s.fs := by
  change (x.run { fs }).mapState _ = _
  rw [h]
  rfl

theorem interrupted_ready (hc : 0 < sender.chunkSize)
    (hr : Ready sender.source (sender.receiver P destPath) fs) (n m : Nat) :
    ∃ fs', (attempt ((sender.receiver P destPath).interrupted sender n m)).run fs = .ok () fs' ∧
      Ready sender.source (sender.receiver P destPath) fs' := by
  obtain ⟨off, s, hp, ha⟩ := prepare_at hr rfl hc
  obtain ⟨chunks, hk, hg⟩ := getChunks_genuine hc ha.le
  obtain ⟨s₁, off₁, seq₁, hs, ha₁, hg₁⟩ := ha.stream rfl hg n
  have hb : ∃ s', ((sender.receiver P destPath).interrupted sender n m).run { fs } = .ok () s' ∧
      Ready sender.source (sender.receiver P destPath) s'.fs := by
    simp only [interrupted, EStateM.run_bind, hp, hk, liftExcept, EStateM.run_pure, hs]
    cases hn : chunks[n]?
    case none => exact ⟨s₁, rfl, ha₁.ready⟩
    case some chunk =>
      rw [← List.head?_drop] at hn
      generalize chunks.drop n = rest at hg₁ hn
      cases hg₁
      case nil => cases hn
      case cons data _ hd tl =>
        cases hn
        exact ha₁.tear ((List.take_prefix m data).trans hd)
  obtain ⟨s', hs', hr'⟩ := hb
  exact ⟨s'.fs, attempt_run hs', hr'⟩

theorem attempts_ready (hc : 0 < sender.chunkSize)
    (hr : Ready sender.source (sender.receiver P destPath) fs) (cuts : List (Nat × Nat)) :
    ∃ fs', (attempts sender (sender.receiver P destPath) cuts).run fs = .ok () fs' ∧
      Ready sender.source (sender.receiver P destPath) fs' := by
  induction cuts generalizing fs
  case nil => exact ⟨fs, rfl, hr⟩
  case cons cut cuts hi =>
    obtain ⟨fs₁, h₁, hr₁⟩ := interrupted_ready hc hr cut.1 cut.2
    obtain ⟨fs₂, h₂, hr₂⟩ := hi hr₁
    refine ⟨fs₂, ?_, hr₂⟩
    have ha : attempts sender (sender.receiver P destPath) (cut :: cuts) =
      (attempt ((sender.receiver P destPath).interrupted sender cut.1 cut.2) >>= fun _ =>
        attempts sender (sender.receiver P destPath) cuts) := rfl
    rw [ha, EStateM.run_bind, h₁]
    exact h₂

theorem completed_run (hc : 0 < sender.chunkSize)
    (hr : Ready sender.source (sender.receiver P destPath) fs) :
    ∃ fs', (attempt ((sender.receiver P destPath).completed P sender)).run fs = .ok true fs' ∧
      fs'.read? destPath = some sender.source ∧ fs'.entry (getPartPath destPath) = none := by
  obtain ⟨off, s, hp, ha⟩ := prepare_at hr rfl hc
  obtain ⟨chunks, hk, hg⟩ := getChunks_genuine hc ha.le
  obtain ⟨s₁, off₁, seq₁, hs, ha₁, hg₁⟩ := ha.stream rfl hg chunks.length
  rw [List.take_length] at hs
  rw [List.drop_length] at hg₁
  cases hg₁
  obtain ⟨i, hh, hi, hcon⟩ := ha₁.handle
  rw [List.take_length] at hcon
  have hread := (read?_of_inode? hi).trans (congrArg some hcon)
  obtain ⟨fs', ho, hf⟩ := finish_run (P := P) ha₁.bytes hread rfl ha₁.dest
  have hrep := replace_eq_some partPath_ne ho
  have hrun : ((sender.receiver P destPath).completed P sender).run { fs } =
      .ok true { s₁ with fileHandle := none, status := .done, fs := fs' } := by
    simp only [completed, EStateM.run_bind, hp, hk, liftExcept, EStateM.run_pure, hs, hf]
  exact ⟨fs', attempt_run hrun, (read?_replace partPath_ne ho).trans hread, hrep.right.right.left⟩

end FileReceiver
end Transfer

-- A cut may come after any chunk and any byte, so what holds after one holds at all times before.
open Transfer FileReceiver in
theorem resumable_transfer_lossless (P : Primitives) (sender : FileSender)
    (hc : 0 < sender.chunkSize) (destPath : Str) (fs : FileSystem Str)
    (hd : fs.entry destPath ≠ some .directory)
    (hp : fs.entry (getPartPath destPath) = none) (cuts : List (Nat × Nat)) :
    ∃ fs₁, (attempts sender (sender.receiver P destPath) cuts).run fs = .ok () fs₁ ∧
      (∀ content, fs₁.read? (getPartPath destPath) = some content → content <+: sender.source) ∧
      ∃ fs₂, (attempt ((sender.receiver P destPath).completed P sender)).run fs₁ = .ok true fs₂ ∧
        fs₂.read? destPath = some sender.source ∧ fs₂.entry (getPartPath destPath) = none := by
  have hr : Ready sender.source (sender.receiver P destPath) fs := by
    refine ⟨hd, fun hn => (by cases hp.symm.trans hn), fun {content} hr => ?_⟩
    simp [FileReceiver.partPath, FileSender.receiver, read?, inode?, hp] at hr
  obtain ⟨fs₁, h₁, hr₁⟩ := attempts_ready hc hr cuts
  exact ⟨fs₁, h₁, fun _ => hr₁.read, completed_run hc hr₁⟩

-- Three bytes in chunks of two, cut in the middle of the first chunk and after it
open Transfer FileReceiver in
theorem resumable_transfer_lossless_unaligned :
    let sender : FileSender := ⟨[1, 2, 3], 2⟩
    let destPath := Str.ofString "notes.txt"
    let r := sender.receiver .transparent destPath
    ∃ fs₁, (attempts sender r [(0, 1), (1, 0)]).run FileSystem.empty = .ok () fs₁ ∧
      (∀ content, fs₁.read? (getPartPath destPath) = some content → content <+: [1, 2, 3]) ∧
      ∃ fs₂, (attempt (r.completed .transparent sender)).run fs₁ = .ok true fs₂ ∧
        fs₂.read? destPath = some [1, 2, 3] ∧ fs₂.entry (getPartPath destPath) = none :=
  resumable_transfer_lossless .transparent ⟨[1, 2, 3], 2⟩ (by decide) _ .empty nofun rfl
    [(0, 1), (1, 0)]
