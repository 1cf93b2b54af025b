import Peerc.FileTransfer.Effect

-- The staging files of the transfers that are being received

namespace TransferState

open Transfer FileSystem

variable {P : Primitives} {s s' : TransferState} {t u : IncomingTransfer} {e : TransferEvent}
  {fs fs' : FileSystem Str} {rest : List IncomingTransfer}

-- Two destinations that have no name in common with each other's staging names
structure Apart (d d' : Str) : Prop where
  dest  : d ≠ d'
  left  : getPartPath d ≠ d'
  right : d ≠ getPartPath d'

namespace Apart

variable {d d' : Str}

instance : Decidable (Apart d d') :=
  decidable_of_iff (d ≠ d' ∧ getPartPath d ≠ d' ∧ d ≠ getPartPath d')
    ⟨fun ⟨h₁, h₂, h₃⟩ => ⟨h₁, h₂, h₃⟩, fun h => ⟨h.dest, h.left, h.right⟩⟩

theorem symm (h : Apart d d') : Apart d' d :=
  ⟨h.dest.symm, h.right.symm, h.left.symm⟩

theorem part (h : Apart d d') : getPartPath d ≠ getPartPath d' :=
  fun he => h.dest (List.append_cancel_right he)

end Apart

-- The transfers that are registered, and those that wait for their acknowledgment to be sent
def live (s : TransferState) : List IncomingTransfer :=
  s.incoming.rows ++ s.verified.map Prod.fst

-- When an offer is accepted, no other transfer has one of its two names.
def Disjoint (s : TransferState) : TransferEvent → Prop
  | .decide i true => ∀ offer ∈ s.offers[i]?, ∀ t ∈ s.live, Apart offer.destPath t.destPath
  | _              => True

instance : (e : TransferEvent) → Decidable (s.Disjoint e)
  | .decide i true => inferInstanceAs (Decidable (∀ offer ∈ s.offers[i]?, ∀ t ∈ s.live, _))
  | .decide _ false | .offerFile .. | .receive .. | .abortSent _ | .ackSent _ => isTrue trivial

-- The staging file of a transfer is its own, and has what was accepted.
structure Staged (fs : FileSystem Str) (t : IncomingTransfer) : Prop where
  inode   : fs.inode? t.partPath = some t.fileHandle
  content : fs.content t.fileHandle = t.accepted
  length  : t.accepted.length = t.bytesReceived

theorem Staged.same (h : Staged fs t) (hs : Same t.partPath fs fs') : Staged fs' t where
  inode   := hs.inode?.trans h.inode
  content := (hs.content h.inode).trans h.content
  length  := h.length

end TransferState

-- A report of success names a file with what was accepted, of the size and with the digest of the offer.
def Completion.Right (P : Primitives) (c : Completion) : Prop :=
  ∀ t, c.transfer = .inr t → c.success →
    c.filepath = some t.destPath ∧ c.content = some t.accepted ∧
    (t.accepted.length : Int) = t.size ∧
    t.expectedChecksum.map (·.val) = some (P.sha256 t.accepted).hex

namespace TransferState

open Transfer FileSystem

variable {P : Primitives} {s s' : TransferState} {t u : IncomingTransfer} {e : TransferEvent}
  {fs fs' : FileSystem Str} {rest : List IncomingTransfer}

structure Kept (P : Primitives) (s : TransferState) : Prop where
  apart    : (s.live.map (·.destPath)).Pairwise Apart
  staged   : ∀ t ∈ s.live, Staged s.fs t
  verified : ∀ t, (t, true) ∈ s.verified → Verifies t (P.sha256 t.accepted).hex
  reported : ∀ c ∈ s.completions, c.Right P

theorem live_perm_incoming (h : t ∈ s.incoming.rows) :
    s.live.Perm (t :: ((s.incoming.erase t.transferId).rows ++ s.verified.map Prod.fst)) :=
  (Table.perm_erase h).append_right _

theorem live_perm_verified {i : Nat} {b : Bool} (h : s.verified[i]? = some (t, b)) :
    s.live.Perm (t :: (s.incoming.rows ++ (s.verified.eraseIdx i).map Prod.fst)) := by
  have ⟨hl, he⟩ := List.getElem?_eq_some_iff.mp h
  have hp := ((List.getElem_cons_eraseIdx_perm hl).map Prod.fst).symm
  rw [he, List.map_cons] at hp
  exact (hp.append_left _).trans List.perm_middle

namespace Kept

-- One of the transfers, and the others
theorem split (h : Kept P s) (hp : s.live.Perm (t :: rest)) :
    (∀ u ∈ rest, Apart t.destPath u.destPath) ∧ (rest.map (·.destPath)).Pairwise Apart := by
  have ha := ((hp.map (·.destPath)).pairwise_iff Apart.symm).mp h.apart
  rw [List.map_cons, List.pairwise_cons] at ha
  exact ⟨fun u hu => ha.left _ (List.mem_map_of_mem hu), ha.right⟩

-- A transfer ends, and leaves the staging files of the others alone.
theorem leave (h : Kept P s) (hp : s.live.Perm (t :: rest)) (hl : s'.live = rest)
    (hs : ∀ u ∈ rest, Apart t.destPath u.destPath → Same u.partPath s.fs s'.fs)
    (hv : ∀ u, (u, true) ∈ s'.verified → (u, true) ∈ s.verified)
    (hc : ∀ c ∈ s'.completions, c.Right P) : Kept P s' where
  apart        := hl ▸ (h.split hp).right
  staged u hu  := by
    have hu := hl ▸ hu
    have hm := hp.mem_iff.mpr (List.mem_cons_of_mem _ hu)
    exact (h.staged u hm).same (hs u hu ((h.split hp).left u hu))
  verified u hu := h.verified u (hv u hu)
  reported      := hc

theorem quiet (h : Kept P s) (hf : s'.fs = s.fs) (hi : s'.incoming = s.incoming)
    (hv : s'.verified = s.verified) (hc : ∀ c ∈ s'.completions, c ∈ s.completions ∨ ¬c.success) :
    Kept P s' := by
  have hl : s'.live = s.live := by rw [live, hi, hv, live]
  refine ⟨hl ▸ h.apart, hl ▸ hf ▸ h.staged, hv ▸ h.verified, fun c hm t ht hs => ?_⟩
  exact h.reported c ((hc c hm).resolve_right (not_not.mpr hs)) t ht hs

theorem written (h : Kept P s) (ht : t ∈ s.incoming.rows) (data : Bytes) :
    Kept P (s.written t data) := by
  have hp := live_perm_incoming ht
  have ⟨ha, hr⟩ := h.split hp
  have hst := h.staged t (List.mem_append_left _ ht)
  constructor
  case apart =>
    -- The names are the same as before, in another order.
    have hperm : ((s.written t data).live.map (·.destPath)).Perm (s.live.map (·.destPath)) := by
      refine List.Perm.trans ?_ (hp.map (·.destPath)).symm
      simp only [live, TransferState.written, Table.replace_rows, List.map_append, List.append_assoc,
        List.map_cons, List.map_nil]
      exact List.perm_middle
    exact (hperm.pairwise_iff Apart.symm).mpr h.apart
  case staged =>
    have ho : ∀ u ∈ (s.incoming.erase t.transferId).rows ++ s.verified.map Prod.fst,
        Staged (s.fs.append t.fileHandle data) u := by
      intro u hu
      have hsu := h.staged u (hp.mem_iff.mpr (List.mem_cons_of_mem _ hu))
      exact hsu.same (same_append fun hi => (ha u hu).part (inode?_inj hst.inode hi))
    intro u hu
    simp only [live, TransferState.written, Table.replace_rows, List.mem_append, List.mem_singleton] at hu
    rcases hu with (hu | rfl) | hu
    · exact ho u (List.mem_append_left _ hu)
    · refine ⟨hst.inode, ?_, ?_⟩
      · calc (s.fs.append t.fileHandle data).content t.fileHandle
          _ = s.fs.content t.fileHandle ++ data := Function.update_self ..
          _ = t.accepted ++ data := by rw [hst.content]
      · rw [List.length_append, hst.length]
    · exact ho u (List.mem_append_right _ hu)
  case verified => exact h.verified
  case reported => exact h.reported

theorem checked (h : Kept P s) (ht : t ∈ s.incoming.rows) {content : Bytes}
    (hc : s.fs.read? t.partPath = some content) : Kept P (s.checked t (P.sha256 content).hex) := by
  have hp := live_perm_incoming ht
  have hst := h.staged t (List.mem_append_left _ ht)
  have hcon : content = t.accepted := by
    rw [read?_of_inode? hst.inode, hst.content] at hc
    exact (Option.some.inj hc).symm
  have hl : (s.checked t (P.sha256 content).hex).live.Perm s.live :=
    List.perm_middle.trans hp.symm
  constructor
  case apart => exact ((hl.map (·.destPath)).pairwise_iff Apart.symm).mpr h.apart
  case staged => exact fun u hu => h.staged u (hl.mem_iff.mp hu)
  case verified =>
    intro u hu
    rcases List.mem_cons.mp hu with he | hu
    · have ⟨hu, hd⟩ := Prod.mk.inj he
      subst hu
      exact hcon ▸ of_decide_eq_true hd.symm
    · exact h.verified u hu
  case reported => exact h.reported

-- What opening the staging file of an accepted offer leaves alone
theorem same_opened {d : Str} {i : Nat} (hw : (s.fs.remove (getPartPath d)).openWrite (getPartPath d) =
    some (i, fs)) {n : Str} (hn : n ≠ getPartPath d) : Same n s.fs fs :=
  (same_remove hn).trans ((openWrite_eq_some hw).right.right n hn)

theorem opened (h : Kept P s) {offer : Offer} {i : Nat} {offers : List Offer}
    (hw : (s.fs.remove (getPartPath offer.destPath)).openWrite (getPartPath offer.destPath) =
      some (i, fs)) (ha : ∀ t ∈ s.live, Apart offer.destPath t.destPath) :
    Kept P { s with offers, fs } :=
  ⟨h.apart, fun u hu => (h.staged u hu).same (same_opened hw (ha u hu).part.symm),
    h.verified, h.reported⟩

theorem registered (h : Kept P s) {offer : Offer} {i : Nat} {key : Json.Key} {offers : List Offer}
    (hw : (s.fs.remove (getPartPath offer.destPath)).openWrite (getPartPath offer.destPath) =
      some (i, fs)) (ha : ∀ t ∈ s.live, Apart offer.destPath t.destPath) :
    Kept P { s with offers, fs, incoming := s.incoming.replace (offer.transfer key i) } := by
  have ho : Kept P { s with offers, fs } := h.opened hw ha
  have ⟨hi, hc, _⟩ := openWrite_eq_some hw
  -- A transfer with the same id is replaced.
  have hsub : ((s.incoming.erase key).rows ++ s.verified.map Prod.fst).Sublist s.live :=
    List.Sublist.append_right List.filter_sublist _
  have hperm : ({ s with offers, fs, incoming := s.incoming.replace (offer.transfer key i) } :
      TransferState).live.Perm (offer.transfer key i ::
        ((s.incoming.erase key).rows ++ s.verified.map Prod.fst)) := by
    simp only [live, Table.replace_rows, List.append_assoc]
    exact List.perm_middle
  constructor
  case apart =>
    refine ((hperm.map (·.destPath)).pairwise_iff Apart.symm).mpr ?_
    rw [List.map_cons, List.pairwise_cons]
    refine ⟨fun d hd => ?_, ho.apart.sublist (hsub.map _)⟩
    have ⟨u, hu, he⟩ := List.mem_map.mp hd
    exact he ▸ ha u (hsub.subset hu)
  case staged =>
    intro u hu
    rcases List.mem_cons.mp (hperm.mem_iff.mp hu) with rfl | hu
    · exact ⟨hi, hc, rfl⟩
    · exact ho.staged u (hsub.subset hu)
  case verified => exact h.verified
  case reported => exact h.reported

theorem step (h : Kept P s) (hg : s.Disjoint e) (he : Effect P s e s') : Kept P s' := by
  cases he
  case quiet hf hi hv _ hc => exact h.quiet hf hi hv hc
  case written ht => exact h.written (mem_of_incomingOf? ht) _
  case checked ht hc => exact h.checked (mem_of_incomingOf? ht) hc
  case aborted ht =>
    refine h.leave (live_perm_incoming (mem_of_incomingOf? ht)) rfl (fun u _ ha => ?_) (fun _ => id)
      h.reported
    exact (same_remove ha.part.symm).trans (same_remove ha.right.symm)
  case popped ht =>
    exact h.leave (live_perm_incoming (mem_of_incomingOf? ht)) rfl (fun _ _ _ => .refl) (fun _ => id)
      h.reported
  case orphaned ho hw => exact h.opened hw (hg _ ho)
  case registered ho hw => exact h.registered hw (hg _ ho)
  case lost ht =>
    exact h.leave (live_perm_verified ht) rfl (fun _ _ _ => .refl)
      (fun _ hu => (List.eraseIdx_sublist _ _).subset hu) h.reported
  case discarded ht =>
    refine h.leave (live_perm_verified ht) rfl (fun u _ ha => same_remove ha.part.symm)
      (fun _ hu => (List.eraseIdx_sublist _ _).subset hu) fun c hc => ?_
    rcases List.mem_cons.mp hc with rfl | hc
    · exact nofun
    · exact h.reported c hc
  case finalized t fs ht hf =>
    have hm := List.mem_of_getElem? ht
    have hr := replace_eq_some (getPartPath_ne _) hf
    refine h.leave (live_perm_verified ht) rfl (fun u _ ha => hr.right.right.right _ ha.part.symm ha.right.symm)
      (fun _ hu => (List.eraseIdx_sublist _ _).subset hu) fun c hc => ?_
    rcases List.mem_cons.mp hc with rfl | hc
    case inr => exact h.reported c hc
    case inl =>
      rintro _ ⟨⟩ -
      have hst := h.staged t (List.mem_append_right _ (List.mem_map_of_mem hm))
      have ⟨hd, hsz⟩ := h.verified t hm
      refine ⟨rfl, ?_, hst.length ▸ hsz, hd⟩
      rw [read?_replace (getPartPath_ne _) hf, ← hst.content]
      exact read?_of_inode? hst.inode

end Kept

theorem kept_init (fs : FileSystem Str) : Kept P { fs } :=
  ⟨.nil, List.forall_mem_nil _, fun _ => (nomatch ·), List.forall_mem_nil _⟩

end TransferState
