import Peerc.FileTransfer.Theorems.Verified

-- The files that a transfer creates, changes or removes

namespace TransferState

open Transfer FileSystem

variable {P : Primitives} {downloadsDir : Str} {s s' : TransferState} {t u : IncomingTransfer}
  {e : TransferEvent} {rest : List IncomingTransfer}

-- The transfer that a step is for: its destination, and the number of inodes when it was offered
def subject (s : TransferState) : TransferEvent → Option (Str × Nat)
  | .receive _ _ p => (s.incomingOf? p).map fun t => (t.destPath, t.offeredAt)
  | .decide i _    => s.offers[i]?.map fun offer => (offer.destPath, offer.offeredAt)
  | .ackSent i     => s.verified[i]?.map fun v => (v.1.destPath, v.1.offeredAt)
  | .offerFile .. | .abortSent _ => none

theorem subject_receive {addrKey : Str} {free : Option Nat} {p : Packet}
    (h : s.incomingOf? p = some t) :
    s.subject (.receive addrKey free p) = some (t.destPath, t.offeredAt) := by
  rw [subject, h]
  rfl

theorem subject_decide {i : Nat} {accept : Bool} {offer : Offer} (h : s.offers[i]? = some offer) :
    s.subject (.decide i accept) = some (offer.destPath, offer.offeredAt) := by
  rw [subject, h]
  rfl

theorem subject_ackSent {i : Nat} {b : Bool} (h : s.verified[i]? = some (t, b)) :
    s.subject (.ackSent i) = some (t.destPath, t.offeredAt) := by
  rw [subject, h]
  rfl

-- When an offer is accepted, nothing has one of its two names.
def Vacant (s : TransferState) : TransferEvent → Prop
  | .decide i true => ∀ offer ∈ s.offers[i]?,
      s.fs.entry offer.destPath = none ∧ s.fs.entry (getPartPath offer.destPath) = none
  | _              => True

instance : (e : TransferEvent) → Decidable (s.Vacant e)
  | .decide i true => inferInstanceAs (Decidable (∀ offer ∈ s.offers[i]?, _ ∧ _))
  | .decide _ false | .offerFile .. | .receive .. | .abortSent _ | .ackSent _ => isTrue trivial

-- The transfer has been reported as complete.
def Delivered (s : TransferState) (t : IncomingTransfer) : Prop :=
  ∃ c ∈ s.completions, c.transfer = .inr t ∧ c.success = true

-- No other file has one of the names of a transfer: none that was there when it was offered, and none of a
-- transfer that has been reported as complete.
structure Exclusive (s : TransferState) (d : Str) (k : Nat) : Prop where
  dest  : s.fs.inode? d = none
  part  : ∀ i, s.fs.inode? (getPartPath d) = some i → k ≤ i
  clear : ∀ t, s.Delivered t → t.destPath ≠ getPartPath d

structure Owns (s : TransferState) (t : IncomingTransfer) : Prop where
  vacant : s.fs.inode? t.destPath = none
  handle : t.offeredAt ≤ t.fileHandle
  clear  : ∀ u, s.Delivered u → u.destPath ≠ t.partPath

structure Owned (P : Primitives) (s : TransferState) : Prop extends Kept P s where
  owns      : ∀ t ∈ s.live, s.Owns t
  offered   : ∀ offer ∈ s.offers, offer.offeredAt ≤ s.fs.fresh
  delivered : ∀ t, s.Delivered t → s.fs.read? t.destPath = some t.accepted

theorem mem_live_incoming {p : Packet} (h : s.incomingOf? p = some t) : t ∈ s.live :=
  List.mem_append_left _ (mem_of_incomingOf? h)

theorem mem_live_verified {i : Nat} {b : Bool} (h : s.verified[i]? = some (t, b)) : t ∈ s.live :=
  List.mem_append_right _ (List.mem_map_of_mem (List.mem_of_getElem? h))

-- A step leaves all names alone but the two of its transfer.
theorem Kept.same (h : Kept P s) (he : Effect P s e s') {n : Str}
    (hn : ∀ d k, s.subject e = some (d, k) → n ≠ d ∧ n ≠ getPartPath d) : Same n s.fs s'.fs := by
  cases he
  case quiet hf _ _ _ _ => exact hf ▸ .refl
  case written t _ ht =>
    have ⟨_, hp⟩ := hn _ _ (subject_receive ht)
    exact same_append fun hi => hp (inode?_inj hi (h.staged t (mem_live_incoming ht)).inode)
  case aborted ht =>
    have ⟨hd, hp⟩ := hn _ _ (subject_receive ht)
    exact (same_remove hp).trans (same_remove hd)
  case popped | checked | lost => exact .refl
  case orphaned ho hw | registered ho hw =>
    have ⟨_, hp⟩ := hn _ _ (subject_decide ho)
    exact same_opened hw hp
  case discarded ht =>
    have ⟨_, hp⟩ := hn _ _ (subject_ackSent ht)
    exact same_remove hp
  case finalized ht hf =>
    have ⟨hd, hp⟩ := hn _ _ (subject_ackSent ht)
    exact (replace_eq_some (getPartPath_ne _) hf).right.right.right n hp hd

namespace Owned

theorem exclusive_live (h : Owned P s) (ht : t ∈ s.live) : s.Exclusive t.destPath t.offeredAt where
  dest  := (h.owns t ht).vacant
  part i hi := by
    cases (h.staged t ht).inode.symm.trans hi
    exact (h.owns t ht).handle
  clear := (h.owns t ht).clear

theorem exclusive_vacant (h : Owned P s) {d : Str} {k : Nat} (hd : s.fs.entry d = none)
    (hp : s.fs.entry (getPartPath d) = none) : s.Exclusive d k := by
  have hn : s.fs.inode? (getPartPath d) = none := by rw [inode?, hp]; rfl
  refine ⟨by rw [inode?, hd]; rfl, fun i hi => (by cases hn.symm.trans hi), fun t ht he => ?_⟩
  have hr := h.delivered t ht
  rw [he, read?_eq_none.mpr hn] at hr
  cases hr

theorem exclusive_subject (h : Owned P s) (hv : s.Vacant e) (he : Effect P s e s') {d : Str} {k : Nat}
    (hs : s.subject e = some (d, k)) : s.fs = s'.fs ∨ s.Exclusive d k := by
  cases he
  case quiet hf _ _ _ _ => exact .inl hf.symm
  case popped | checked | lost => exact .inl rfl
  case written ht | aborted ht =>
    cases hs.symm.trans (subject_receive ht)
    exact .inr (h.exclusive_live (mem_live_incoming ht))
  case orphaned ho _ | registered ho _ =>
    cases hs.symm.trans (subject_decide ho)
    have ⟨hd, hp⟩ := hv _ ho
    exact .inr (h.exclusive_vacant hd hp)
  case discarded ht | finalized ht _ =>
    cases hs.symm.trans (subject_ackSent ht)
    exact .inr (h.exclusive_live (mem_live_verified ht))

theorem same_of_lt (h : Owned P s) (hv : s.Vacant e) (he : Effect P s e s') {d n : Str} {k i : Nat}
    (hs : s.subject e = some (d, k)) (hn : s.fs.inode? n = some i) (hi : i < k) :
    Same n s.fs s'.fs := by
  rcases h.exclusive_subject hv he hs with hf | hx
  case inl => exact hf ▸ .refl
  case inr =>
    refine h.same he fun d' k' hs' => ?_
    cases hs.symm.trans hs'
    refine ⟨fun hd => ?_, fun hp => ?_⟩
    · cases hn.symm.trans (hd ▸ hx.dest)
    · exact absurd (hx.part i (hp ▸ hn)) (Nat.not_le.mpr hi)

theorem same_delivered (h : Owned P s) (hv : s.Vacant e) (he : Effect P s e s') (ht : s.Delivered t) :
    Same t.destPath s.fs s'.fs := by
  cases hs : s.subject e
  case none => exact h.same he fun d k h => (nomatch hs.symm.trans h)
  case some dk =>
    rcases h.exclusive_subject hv he hs with hf | hx
    case inl => exact hf ▸ .refl
    case inr =>
      refine h.same he fun d' k' hs' => ?_
      cases hs.symm.trans hs'
      refine ⟨fun hd => ?_, hx.clear t ht⟩
      have hr := h.delivered t ht
      rw [hd, read?_eq_none.mpr hx.dest] at hr
      cases hr

end Owned

theorem Effect.fresh_le (he : Effect P s e s') : s.fs.fresh ≤ s'.fs.fresh := by
  cases he
  case quiet hf _ _ _ _ => exact (congrArg FileSystem.fresh hf).ge
  case written | popped | checked | lost => exact Nat.le_refl _
  case aborted | discarded => simp [TransferState.aborted, TransferState.discarded, failed]
  case orphaned hw | registered hw => exact fresh_remove.ge.trans (fresh_le_openWrite hw)
  case finalized hf => exact (fresh_replace hf).ge

theorem Effect.offers (he : Effect P s e s') :
    ∀ offer ∈ s'.offers, offer ∈ s.offers ∨ offer.offeredAt = s.fs.fresh := by
  cases he
  case quiet ho _ => exact ho
  case orphaned | registered => exact fun _ ho => .inl ((List.eraseIdx_sublist _ _).subset ho)
  all_goals exact fun _ => .inl

theorem delivered_cons {c : Completion} (hc : s'.completions = c :: s.completions) (hd : s'.Delivered t) :
    s.Delivered t ∨ c.transfer = .inr t ∧ c.success = true := by
  have ⟨c', hm, ht⟩ := hd
  rw [hc] at hm
  rcases List.mem_cons.mp hm with rfl | hm
  · exact .inr ht
  · exact .inl ⟨c', hm, ht⟩

-- A transfer is reported as complete when its staging file gets the name of the destination.
theorem Effect.delivered (he : Effect P s e s') (hd : s'.Delivered t) :
    s.Delivered t ∨ ∃ i, e = .ackSent i ∧ s.verified[i]? = some (t, true) ∧
      s.fs.replace t.partPath t.destPath = some s'.fs := by
  cases he
  case quiet h =>
    have ⟨c, hc, hct, hcs⟩ := hd
    exact .inl ⟨c, (h c hc).resolve_right (not_not.mpr hcs), hct, hcs⟩
  case discarded => exact .inl ((delivered_cons rfl hd).resolve_right fun h => by cases h.right)
  case finalized i t' fs ht hf =>
    refine (delivered_cons rfl hd).imp_right fun h => ?_
    cases h.left
    exact ⟨i, rfl, ht, hf⟩
  all_goals exact .inl hd

theorem Owns.next (h : s.Owns u) (hs : Same u.destPath s.fs s'.fs)
    (hd : ∀ t, s'.Delivered t → s.Delivered t ∨ t.destPath ≠ u.partPath) : s'.Owns u where
  vacant     := hs.inode?.trans h.vacant
  handle     := h.handle
  clear t ht := (hd t ht).elim (h.clear t) id

namespace Owned

-- A transfer ends, and leaves the names of the others alone.
theorem owns_leave (h : Owned P s) (hp : s.live.Perm (t :: rest)) (hu : u ∈ rest)
    (hs : Apart t.destPath u.destPath → Same u.destPath s.fs s'.fs)
    (hd : ∀ v, s'.Delivered v → s.Delivered v ∨ v = t) : s'.Owns u := by
  have ha := (h.split hp).left u hu
  have ho := h.owns u (hp.mem_iff.mpr (List.mem_cons_of_mem _ hu))
  refine ho.next (hs ha) fun v hv => ?_
  rcases hd v hv with hv | rfl
  · exact .inl hv
  · exact .inr ha.right

-- A staging file is opened for a transfer whose names are apart from the ones of the others.
theorem owns_opened {offer : Offer} {i : Nat} (h : Owned P s)
    (ha : ∀ t ∈ s.live, Apart offer.destPath t.destPath)
    (hw : (s.fs.remove (getPartPath offer.destPath)).openWrite (getPartPath offer.destPath) = some (i, s'.fs))
    (hu : u ∈ s.live) (hc : s'.completions = s.completions) : s'.Owns u := by
  refine (h.owns u hu).next (Kept.same_opened hw (ha u hu).left.symm) fun t => ?_
  rw [Delivered, hc]
  exact .inl

theorem owns_written {data : Bytes} (h : Owned P s) (ht : t ∈ s.incoming.rows)
    (hu : u ∈ (s.written t data).live) : (s.written t data).Owns u := by
  have same : ∀ v ∈ s.live, (s.written t data).Owns v := by
    intro v hm
    have ho := h.owns v hm
    exact ho.next (same_append (by rw [ho.vacant]; nofun)) fun _ => .inl
  simp only [live, TransferState.written, Table.replace_rows, List.mem_append, List.mem_singleton] at hu
  rcases hu with (hu | rfl) | hu
  · exact same u (List.mem_append_left _ (List.mem_of_mem_filter hu))
  · have ho := same t (List.mem_append_left _ ht)
    exact ⟨ho.vacant, ho.handle, ho.clear⟩
  · exact same u (List.mem_append_right _ hu)

theorem owns_step (h : Owned P s) (hg : s.Disjoint e) (hv : s.Vacant e) (he : Effect P s e s')
    (hu : u ∈ s'.live) : s'.Owns u := by
  cases he
  case quiet hf hi hv _ hc =>
    have hl : s'.live = s.live := by rw [live, hi, hv, live]
    refine (h.owns u (hl ▸ hu)).next (hf ▸ .refl) ?_
    rintro t ⟨c, hm, hct, hcs⟩
    exact .inl ⟨c, (hc c hm).resolve_right (not_not.mpr hcs), hct, hcs⟩
  case written ht => exact h.owns_written (mem_of_incomingOf? ht) hu
  case checked ht _ =>
    have hp := live_perm_incoming (mem_of_incomingOf? ht)
    exact (h.owns u ((List.perm_middle.trans hp.symm).mem_iff.mp hu)).next .refl fun _ => .inl
  case aborted ht =>
    refine h.owns_leave (live_perm_incoming (mem_of_incomingOf? ht)) hu (fun ha => ?_) fun _ => .inl
    exact (same_remove ha.left.symm).trans (same_remove ha.dest.symm)
  case popped ht =>
    exact h.owns_leave (live_perm_incoming (mem_of_incomingOf? ht)) hu (fun _ => .refl) fun _ => .inl
  case orphaned ho hw => exact h.owns_opened (hg _ ho) hw hu rfl
  case registered offer key fileHandle fs ho hw =>
    simp only [live, Table.replace_rows, List.mem_append, List.mem_singleton] at hu
    rcases hu with (hu | rfl) | hu
    · exact h.owns_opened (hg _ ho) hw (List.mem_append_left _ (List.mem_of_mem_filter hu)) rfl
    · obtain ⟨hd, hp⟩ := hv _ ho
      have hx : s.Exclusive offer.destPath offer.offeredAt := h.exclusive_vacant hd hp
      refine ⟨(Kept.same_opened hw (getPartPath_ne _).symm).inode?.trans hx.dest, ?_, hx.clear⟩
      rw [remove_of_none hp, openWrite_of_none hp] at hw
      cases hw
      exact h.offered _ (List.mem_of_getElem? ho)
    · exact h.owns_opened (hg _ ho) hw (List.mem_append_right _ hu) rfl
  case lost ht =>
    exact h.owns_leave (live_perm_verified ht) hu (fun _ => .refl) fun _ => .inl
  case discarded ht =>
    refine h.owns_leave (live_perm_verified ht) hu (fun ha => same_remove ha.left.symm) fun v hd => ?_
    exact .inl ((delivered_cons rfl hd).resolve_right fun h => by cases h.right)
  case finalized ht hf =>
    have hr := replace_eq_some (getPartPath_ne _) hf
    refine h.owns_leave (live_perm_verified ht) hu
      (fun ha => hr.right.right.right _ ha.left.symm ha.dest.symm) fun v hd => ?_
    exact (delivered_cons rfl hd).imp_right fun h => (Sum.inr.inj h.left).symm

theorem step (h : Owned P s) (hg : s.Disjoint e) (hv : s.Vacant e) (he : Effect P s e s') :
    Owned P s' where
  toKept := h.toKept.step hg he
  owns _ := h.owns_step hg hv he
  offered offer ho := by
    rcases he.offers offer ho with ho | ho
    · exact (h.offered offer ho).trans he.fresh_le
    · exact ho ▸ he.fresh_le
  delivered t ht := by
    rcases he.delivered ht with ht | ⟨i, rfl, hv, hf⟩
    · exact (h.same_delivered hv he ht).read.trans (h.delivered t ht)
    · have hst := h.staged t (mem_live_verified hv)
      rw [read?_replace (getPartPath_ne _) hf, ← hst.content]
      exact read?_of_inode? hst.inode

end Owned

theorem owned_of_run (run : (machine P downloadsDir).Run (fun s e => s.Disjoint e ∧ s.Vacant e) s) :
    Owned P s := by
  refine run.invariant ?_ fun h hg hs => h.step hg.left hg.right (step_effect hs)
  rintro _ ⟨fs, rfl⟩
  refine ⟨kept_init fs, List.forall_mem_nil _, List.forall_mem_nil _, ?_⟩
  rintro t ⟨c, hc, _⟩
  cases hc

end TransferState

-- Each step leaves alone the files whose names are not the ones of its transfer, the files that were
-- there when its transfer was offered, and the files of the transfers that have been reported as
-- complete.
open TransferState FileSystem in
theorem transfers_confined {P : Primitives} {downloadsDir : Str} {s s' : TransferState}
    {e : TransferEvent} (run : (machine P downloadsDir).Run (fun s e => s.Disjoint e ∧ s.Vacant e) s)
    (guard : s.Disjoint e ∧ s.Vacant e) (step : s.step P downloadsDir e = some s') :
    (∀ n, (∀ d k, s.subject e = some (d, k) → n ≠ d ∧ n ≠ Transfer.getPartPath d) →
      Same n s.fs s'.fs) ∧
    (∀ d k n i, s.subject e = some (d, k) → s.fs.inode? n = some i → i < k → Same n s.fs s'.fs) ∧
    ∀ c ∈ s.completions, ∀ t, c.transfer = .inr t → c.success →
      s.fs.read? t.destPath = some t.accepted ∧ Same t.destPath s.fs s'.fs := by
  have h := owned_of_run run
  have he := step_effect step
  refine ⟨fun n hn => h.same he hn, fun d k n i hs hn hi => h.same_of_lt guard.right he hs hn hi, ?_⟩
  intro c hc t ht hs
  have hd : s.Delivered t := ⟨c, hc, ht, hs⟩
  exact ⟨h.delivered t hd, h.same_delivered guard.right he hd⟩

-- The transfer of the last report, if it was one of success
def TransferState.delivered? (s : TransferState) : Option IncomingTransfer := do
  let c ← s.completions.head?
  if c.success then c.transfer.getRight? else none

theorem TransferState.delivered_of_delivered? {s : TransferState} {t : IncomingTransfer}
    (h : s.delivered? = some t) : s.Delivered t := by
  have ⟨c, hc, h⟩ := Option.bind_eq_some_iff.mp h
  have ⟨hs, ht⟩ := Option.ite_none_right_eq_some.mp h
  exact ⟨c, List.mem_of_head? hc, Sum.getRight?_eq_some_iff.mp ht, hs⟩

-- A chunk out of order of the second transfer removes the file that the first one has completed: its name is
-- the staging name of the second one.
open TransferState Names in
theorem transfers_confined_abort :
    ∃ s s' e t, (machine .transparent downloadsDir).Reachable s ∧
      s.step .transparent downloadsDir e = some s' ∧ s.Delivered t ∧
      s.fs.read? t.destPath = some t.accepted ∧ s'.fs.read? t.destPath = none := by
  have h₀ : (machine .transparent downloadsDir).Reachable { fs := .empty } := .init ⟨_, rfl⟩
  let abort := receive (chunk "2" 1 [2])
  let removes (s : TransferState) : Bool := s.delivered?.any fun t =>
    s.fs.read? t.destPath = some t.accepted ∧
      (s.step .transparent downloadsDir abort).any (·.fs.read? t.destPath = none)
  have ⟨s, hr, h⟩ := h₀.exec_any (p := removes) completed (by decide +kernel)
  have ⟨t, ht, h⟩ := (Option.any_eq_true ..).mp h
  have ⟨hb, h⟩ := of_decide_eq_true h
  have ⟨s', hs, ha⟩ := (Option.any_eq_true ..).mp h
  exact ⟨s, s', abort, t, hr, hs, delivered_of_delivered? ht, hb, of_decide_eq_true ha⟩

-- The same with another name for the first file
open TransferState Names in
theorem transfers_confined_two :
    ∃ s s' e t, (machine .transparent downloadsDir).Run (fun s e => s.Disjoint e ∧ s.Vacant e) s ∧
      s.step .transparent downloadsDir e = some s' ∧ s.Delivered t ∧
      s.incoming.rows ≠ [] ∧ s'.incoming.rows = [] ∧ s'.fs.read? t.destPath = some t.accepted := by
  have h₀ : (machine .transparent downloadsDir).Run (fun s e => s.Disjoint e ∧ s.Vacant e)
      { fs := .empty } := .init ⟨_, rfl⟩
  let events := [receive (offer "1" "b" "01"), .decide 0 true, receive (offer "2" "a" "01"), .decide 0 true,
    receive (chunk "1" 0 [1]), receive (done "1"), .ackSent 0]
  let abort := receive (chunk "2" 1 [2])
  let aborts (s : TransferState) : Bool := s.delivered?.isSome ∧ s.incoming.rows ≠ [] ∧
    (s.step .transparent downloadsDir abort).any (·.incoming.rows = [])
  have ⟨s, hr, h⟩ := h₀.exec_any (p := aborts) events (by decide +kernel)
  have ⟨ht, hi, h⟩ := of_decide_eq_true h
  have ⟨t, ht⟩ := Option.isSome_iff_exists.mp ht
  have ⟨s', hs, hi'⟩ := (Option.any_eq_true ..).mp h
  have ⟨c, hc, hct, hcs⟩ := delivered_of_delivered? ht
  have ⟨hd, hk⟩ := (transfers_confined (e := abort) hr ⟨trivial, trivial⟩ hs).right.right c hc t hct hcs
  exact ⟨s, s', abort, t, hr, hs, ⟨c, hc, hct, hcs⟩, hi, of_decide_eq_true hi', hk.read.trans hd⟩
