import Mathlib.Algebra.Order.BigOperators.Group.List
import Peerc.Lib.Lists
import Peerc.Transfer.Manager

-- The limits of a manager, along every interleaving of offers

open FileSystem

namespace Transfer

namespace FileReceiver

variable {P : Primitives} {r : FileReceiver} {s s' : ReceiverState}

-- A method takes no name away but its own staging name, which is taken as long as the receiver is receiving.
structure Tidy (r : FileReceiver) (s s' : ReceiverState) : Prop where
  names {n : Str} : n ≠ r.partPath → s.fs.entry n ≠ none → s'.fs.entry n ≠ none
  staged          : (s.status = .receiving → s.fs.entry r.partPath ≠ none) →
    s'.status = .receiving → s'.fs.entry r.partPath ≠ none

theorem entry_remove_ne_none {fs : FileSystem Str} {n : Str} (hn : n ≠ r.partPath) (h : fs.entry n ≠ none) :
    (fs.remove r.partPath).entry n ≠ none := by
  rwa [(same_remove hn).entry]

theorem PrepareEffect.tidy (h : PrepareEffect r s s') : Tidy r s s' := by
  cases h
  case resumed i hi hl =>
    refine ⟨fun _ he => he, fun _ _ hn => ?_⟩
    cases (inode?_eq_some.mp hi).symm.trans hn
  case zeroDivision => exact ⟨fun _ he => he, fun hs hr => hs hr⟩
  case fresh i fs ho =>
    obtain ⟨hi, -, hm⟩ := openWrite_eq_some ho
    refine ⟨fun hn he => ?_, fun _ _ hn => ?_⟩
    · rw [(hm _ hn).entry]
      exact entry_remove_ne_none hn he
    · cases (inode?_eq_some.mp hi).symm.trans hn
  case directory => exact ⟨fun _ he => he, fun hs hr => hs hr⟩

theorem WriteEffect.tidy {data : Bytes} {res : EStateM.Result Failure ReceiverState Unit}
    (h : WriteEffect r s data res) : Tidy r s res.state := by
  cases h
  case written => exact ⟨fun _ he => he, fun hs hr => hs hr⟩
  case refused => exact ⟨fun _ he => he, fun hs hr => hs hr⟩

theorem FinishEffect.tidy {res : EStateM.Result Failure ReceiverState Bool} (h : FinishEffect P r s res) :
    Tidy r s res.state := by
  cases h
  case finalized content fs _ hr _ hf =>
    obtain ⟨-, hd, -, hm⟩ := replace_eq_some partPath_ne hf
    refine ⟨fun {n} hn he => ?_, fun _ hs => (by cases hs)⟩
    by_cases hnd : n = r.destPath
    case neg => exact (hm n hn hnd).entry ▸ he
    case pos =>
      -- The name of the destination gets the file behind the staging name.
      subst hnd
      change fs.entry r.destPath ≠ none
      rw [hd]
      intro hx
      rw [read?, inode?, hx] at hr
      cases hr
  case discarded => exact ⟨entry_remove_ne_none, fun _ hs => (by cases hs)⟩
  case raised => exact ⟨fun _ he => he, fun _ hs => (by cases hs)⟩

theorem Call.tidy (c : Call) : Tidy r s ((c.exec P r).run s).state := by
  cases c
  case prepare resume =>
    rw [Call.exec, EStateM.state_discard]
    exact (prepare_effect resume).tidy
  case writeChunk sequence offset data => exact (writeChunk_effect sequence offset data).tidy
  case finish =>
    rw [Call.exec, EStateM.state_discard]
    exact finish_effect.tidy
  case abort cleanup =>
    rw [Call.exec, abort_run]
    cases cleanup
    case false => exact ⟨fun _ he => he, nofun⟩
    case true => exact ⟨entry_remove_ne_none, nofun⟩

end FileReceiver

-- The receivers that count

namespace Inbound

variable {s s' : Inbound}

def specs (s : Inbound) : List FileReceiver :=
  s.active.map (·.receiver)

theorem activeIncomingCount_eq : s.activeIncomingCount = s.specs.length :=
  List.length_map _ |>.symm

theorem totalIncomingBytesPending_eq : s.totalIncomingBytesPending = (s.specs.map (·.size)).sum := by
  rw [totalIncomingBytesPending, specs, List.map_map]
  rfl

end Inbound

namespace FileTransferManager

open Inbound TransferState

variable {P : Primitives} {m : FileTransferManager} {s s' : Inbound} {offer : ValidOffer}

-- The limits hold, and the destinations of the receivers that count are different.
structure Limited (m : FileTransferManager) (s : Inbound) : Prop where
  count : s.activeIncomingCount ≤ m.maxConcurrent
  bytes : s.totalIncomingBytesPending ≤ m.maxTotalIncoming
  paths : (s.active.map (·.receiver.destPath)).Nodup

-- Offers come one after the other: an offer is validated when every receiver that counts has been prepared, and
-- its receiver is created before that of any other offer.
def Serial (s : Inbound) : OfferEvent → Prop
  | .validateOffer ..            => ∀ t ∈ s.active, t.status = .receiving
  | .createReceiver transferId _ => ∀ offer ∈ s.offers, offer.transferId = transferId → offer.current
  | .call .. | .removeTransfer _ => True

instance decidableSerial : (e : OfferEvent) → Decidable (Serial s e)
  | .validateOffer ..            => inferInstanceAs (Decidable (∀ t ∈ s.active, t.status = .receiving))
  | .createReceiver transferId _ =>
    inferInstanceAs (Decidable (∀ offer ∈ s.offers, offer.transferId = transferId → offer.current))
  | .call .. | .removeTransfer _ => isTrue trivial

-- There is room for what is offered.
structure Room (m : FileTransferManager) (s : Inbound) (offer : ValidOffer) : Prop where
  size  : 0 < offer.size
  count : s.specs.length < m.maxConcurrent
  bytes : (s.specs.map (·.size)).sum + offer.size ≤ m.maxTotalIncoming
  path  : ∀ r ∈ s.specs, r.destPath ≠ offer.destPath

structure Inv (m : FileTransferManager) (s : Inbound) : Prop where
  count  : s.specs.length ≤ m.maxConcurrent
  bytes  : (s.specs.map (·.size)).sum ≤ m.maxTotalIncoming
  paths  : (s.specs.map (·.destPath)).Nodup
  staged : ∀ t ∈ s.active, t.status = .receiving → s.fs.entry t.receiver.partPath ≠ none
  offers : ∀ offer ∈ s.offers, offer.current → Room m s offer

theorem sum_size_le (h : s'.specs.Sublist s.specs) :
    (s'.specs.map (·.size)).sum ≤ (s.specs.map (·.size)).sum :=
  (h.map _).sum_le_sum fun _ _ => Nat.zero_le _

theorem Room.of_sublist (h : Room m s offer) (hs : s'.specs.Sublist s.specs) : Room m s' offer where
  size  := h.size
  count := by
    have hl := hs.length_le
    have hc := h.count
    omega
  bytes := by
    have hl := sum_size_le hs
    have hb := h.bytes
    omega
  path r hr := h.path r (hs.mem hr)

-- No step but the creation of a receiver adds to what counts.
theorem Inv.of_sublist (h : Inv m s) (hs : s'.specs.Sublist s.specs)
    (ht : ∀ t ∈ s'.active, t.status = .receiving → s'.fs.entry t.receiver.partPath ≠ none)
    (ho : s'.offers = s.offers) : Inv m s' where
  count  := by
    have hl := hs.length_le
    have hc := h.count
    omega
  bytes  := by
    have hl := sum_size_le hs
    have hb := h.bytes
    omega
  paths  := h.paths.sublist (hs.map _)
  staged := ht
  offers := fun offer hm hc => (h.offers offer (ho ▸ hm) hc).of_sublist hs

theorem Inv.limited (h : Inv m s) : Limited m s where
  count := by
    rw [activeIncomingCount_eq]
    exact h.count
  bytes := by
    rw [totalIncomingBytesPending_eq]
    exact h.bytes
  paths := by
    have hp := h.paths
    rwa [specs, List.map_map] at hp

-- The steps

theorem validateOffer_eq_ok {free : Option Nat} {filename destPath : Str} {size : Int}
    (h : m.validateOffer s free filename size = .ok destPath) :
    0 < size ∧ s.activeIncomingCount < m.maxConcurrent ∧
      s.totalIncomingBytesPending + size ≤ m.maxTotalIncoming ∧
      resolveSafeDestPath s.fs m.downloadsDir filename = some destPath := by
  simp only [validateOffer] at h
  by_cases hs : size ≤ 0 ∨ size > maxIncomingFileSize
  case pos =>
    rw [if_pos hs] at h
    cases h
  by_cases hc : s.activeIncomingCount ≥ m.maxConcurrent
  case pos =>
    rw [if_neg hs, if_pos hc] at h
    cases h
  by_cases hb : s.totalIncomingBytesPending + size > m.maxTotalIncoming
  case pos =>
    rw [if_neg hs, if_neg hc, if_pos hb] at h
    cases h
  by_cases hf : checkDiskSpace free size
  case neg =>
    rw [if_neg hs, if_neg hc, if_neg hb, if_pos hf] at h
    cases h
  rw [if_neg hs, if_neg hc, if_neg hb, if_neg (not_not.mpr hf)] at h
  split at h
  case h_2 => split at h <;> cases h
  case h_1 hd =>
    cases h
    exact ⟨by omega, Int.not_le.mp hc, Int.not_lt.mp hb, hd⟩

theorem Inv.validated (h : Inv m s) (hr : ∀ t ∈ s.active, t.status = .receiving) {free : Option Nat}
    {filename destPath : Str} {size : Int} (hv : m.validateOffer s free filename size = .ok destPath)
    (transferId : Text) :
    Inv m { s with offers := s.offers ++ [{ transferId, size, destPath }] } := by
  obtain ⟨hs, hc, hb, hd⟩ := validateOffer_eq_ok hv
  rw [activeIncomingCount_eq] at hc
  rw [totalIncomingBytesPending_eq] at hb
  -- The staging names of all receivers that count are taken, the one of the offer is free.
  have hp : ∀ r ∈ s.specs, r.destPath ≠ destPath := by
    intro r hm he
    obtain ⟨t, ht, rfl⟩ := List.mem_map.mp hm
    refine h.staged t ht (hr t ht) ?_
    rw [FileReceiver.partPath, he]
    exact (resolveSafeDestPath_free hd).right
  refine { h with offers := fun offer hm hcur => ?_ }
  rcases List.mem_append.mp hm with hm | hm
  · exact (h.offers offer hm hcur).of_sublist (.refl _)
  · obtain rfl := List.mem_singleton.mp hm
    exact ⟨hs, hc, hb, hp⟩

theorem Inv.created (h : Inv m s) (hr : Room m s offer) (checksum : Str) {offers : List ValidOffer}
    (ho : ∀ offer ∈ offers, ¬offer.current) :
    Inv m (createReceiver { s with offers } offer checksum) := by
  let t : Registered := {
    transferId := offer.transferId
    receiver   := ⟨offer.size.toNat, checksum, offer.destPath, receiverChunkSize⟩ }
  let rest := (s.receivers.rows.filter (·.transferId ≠ offer.transferId)).filter (·.isActive)
  have ha : (createReceiver { s with offers } offer checksum).active = rest ++ [t] := List.filter_append ..
  have hrest : rest.Sublist s.active := List.filter_sublist.filter _
  have hs : (rest.map (·.receiver)).Sublist s.specs := hrest.map _
  have hn : (createReceiver { s with offers } offer checksum).specs = rest.map (·.receiver) ++ [t.receiver] := by
    rw [specs, ha, List.map_append, List.map_singleton]
  refine ⟨?_, ?_, ?_, ?_, fun offer hm hc => absurd hc (ho offer hm)⟩
  · have hl := hs.length_le
    have hc := hr.count
    rw [hn, List.length_append, List.length_singleton]
    omega
  · have hl : ((rest.map (·.receiver)).map (·.size)).sum ≤ (s.specs.map (·.size)).sum :=
      (hs.map _).sum_le_sum fun _ _ => Nat.zero_le _
    have hz : (t.receiver.size : Int) = offer.size := Int.toNat_of_nonneg hr.size.le
    have hb := hr.bytes
    rw [hn, List.map_append, List.sum_append, List.map_singleton, List.sum_singleton]
    omega
  · rw [hn, List.map_append, List.map_singleton]
    refine (h.paths.sublist (hs.map _)).append (List.nodup_singleton _) ?_
    rw [List.disjoint_singleton]
    intro hm
    obtain ⟨r, hm, hd⟩ := List.mem_map.mp hm
    exact hr.path r (hs.mem hm) hd
  · intro t' ht' hst
    rw [ha] at ht'
    rcases List.mem_append.mp ht' with hm | hm
    · exact h.staged t' (hrest.mem hm) hst
    · obtain rfl := List.mem_singleton.mp hm
      cases hst

theorem Inv.removed (h : Inv m s) (transferId : Text) : Inv m (removeTransfer s transferId) := by
  have hs : (removeTransfer s transferId).active.Sublist s.active := List.filter_sublist.filter _
  exact h.of_sublist (hs.map _) (fun t ht => h.staged t (hs.mem ht)) rfl

theorem Inv.called (h : Inv m s) {t : Registered} (ht : s.receivers.find? t.transferId = some t)
    (ha : t.isActive) (c : FileReceiver.Call) : Inv m (call P s t c) := by
  have hu {a : Registered} (hm : a ∈ s.receivers.rows) (hk : a.transferId = t.transferId) : a = t :=
    Option.some.inj ((hk ▸ Table.find?_of_mem hm).symm.trans ht)
  have hta : t ∈ s.active := List.mem_filter.mpr ⟨Table.mem_of_find? ht, ha⟩
  have htidy := c.tidy (P := P) (r := t.receiver) (s := t.state s.fs)
  refine h.of_sublist (List.filter_map_sublist (fun a => ?_) fun a hm hp => ?_) (fun a hm hst => ?_) rfl
  · dsimp only
    split <;> rfl
  · by_cases hk : a.transferId = t.transferId
    · exact hu hm hk ▸ ha
    · rwa [if_neg hk] at hp
  · obtain ⟨hm, hact⟩ := List.mem_filter.mp hm
    obtain ⟨a, hr, rfl⟩ := List.mem_map.mp hm
    by_cases hk : a.transferId = t.transferId
    case pos =>
      obtain rfl := hu hr hk
      rw [if_pos rfl] at hst ⊢
      exact htidy.staged (h.staged a hta) hst
    case neg =>
      rw [if_neg hk] at hact hst ⊢
      have haa : a ∈ s.active := List.mem_filter.mpr ⟨hr, hact⟩
      refine htidy.names ?_ (h.staged a haa hst)
      intro hp
      have hd : a.receiver.destPath = t.receiver.destPath := List.append_cancel_right hp
      exact hk (congrArg Registered.transferId (List.inj_on_of_nodup_map h.limited.paths haa hta hd))

theorem Inv.step {e : OfferEvent} (h : Inv m s) (hg : Serial s e) (he : m.step P s e = some s') : Inv m s' := by
  cases e
  case validateOffer transferId filename size free =>
    obtain ⟨-, he⟩ := Option.ite_none_left_eq_some.mp he
    split at he
    · cases he
      exact h
    case h_2 hv =>
      cases he
      exact h.validated hg hv transferId
  case createReceiver transferId checksum =>
    obtain ⟨offer, hf, he⟩ := Option.bind_eq_some_iff.mp he
    cases he
    have hm := List.mem_of_find?_eq_some hf
    have hi : offer.transferId = transferId := by simpa using List.find?_some hf
    refine h.created (h.offers offer hm (hg offer hm hi)) checksum ?_
    rintro _ hx
    obtain ⟨_, -, rfl⟩ := List.mem_map.mp hx
    exact Bool.false_ne_true
  case call transferId c =>
    obtain ⟨t, hf, he⟩ := Option.bind_eq_some_iff.mp he
    obtain ⟨ha, he⟩ := Option.ite_none_right_eq_some.mp he
    cases he
    exact h.called (Table.key_of_find? hf ▸ hf) ha c
  case removeTransfer transferId =>
    cases he
    exact h.removed transferId

end FileTransferManager

end Transfer

open Transfer FileTransferManager

-- Limits that are negative are exceeded from the start.
theorem inbound_limits_of_serial (P : Primitives) (m : FileTransferManager) (hc : 0 ≤ m.maxConcurrent)
    (hb : 0 ≤ m.maxTotalIncoming) (s : Inbound) (hs : (machine P m).Run Serial s) : Limited m s := by
  refine Inv.limited (hs.invariant (fun hi => ?_) fun h hg he => h.step hg he)
  obtain ⟨fs, rfl⟩ := hi
  exact { count := hc, bytes := hb, paths := List.nodup_nil, staged := nofun, offers := nofun }

namespace Transfer.FileTransferManager

-- A manager for one byte at a time
def oneByte : FileTransferManager where
  downloadsDir     := .ofString "downloads"
  maxConcurrent    := 1
  maxTotalIncoming := 1

def validateByte (transferId : String) : OfferEvent :=
  .validateOffer (.ofString transferId) (.ofString "a.txt") 1 none

def createByte (transferId : String) : OfferEvent :=
  .createReceiver (.ofString transferId) (.ofString "ab")

end Transfer.FileTransferManager

theorem inbound_limits_one_byte : ∃ s, (machine .transparent oneByte).Run Serial s ∧
    s.activeIncomingCount = 1 ∧ Limited oneByte s := by
  have h₀ : (machine .transparent oneByte).Run Serial _ := .init ⟨.empty, rfl⟩
  obtain ⟨s, hs, hp⟩ := h₀.exec_any (p := fun s => s.activeIncomingCount = 1)
    [validateByte "1", createByte "1", .call (.ofString "1") (.prepare false)] (by decide +kernel)
  exact ⟨s, hs, of_decide_eq_true hp, inbound_limits_of_serial _ _ (by decide) (by decide) s hs⟩

-- Two offers are validated before the receiver of the first is created, or before it is prepared.
theorem inbound_limits_exceeded :
    (∃ s, (machine .transparent oneByte).Reachable s ∧ s.activeIncomingCount = 2 ∧
      s.totalIncomingBytesPending = 2) ∧
    ∃ s, (machine .transparent { oneByte with maxConcurrent := 5, maxTotalIncoming := 1000 }).Reachable s ∧
      s.active.map (·.receiver.destPath) = [.ofString "downloads/a.txt", .ofString "downloads/a.txt"] := by
  constructor
  · have h₀ : (machine .transparent oneByte).Reachable _ := .init ⟨.empty, rfl⟩
    obtain ⟨s, hs, hp⟩ := h₀.exec_any (p := fun s => s.activeIncomingCount = 2 ∧ s.totalIncomingBytesPending = 2)
      [validateByte "1", validateByte "2", createByte "1", createByte "2"] (by decide +kernel)
    exact ⟨s, hs, of_decide_eq_true hp⟩
  · have h₀ : (machine .transparent { oneByte with maxConcurrent := 5, maxTotalIncoming := 1000 }).Reachable _ :=
      .init ⟨.empty, rfl⟩
    obtain ⟨s, hs, hp⟩ := h₀.exec_any
      (p := fun s => s.active.map (·.receiver.destPath) =
        [.ofString "downloads/a.txt", .ofString "downloads/a.txt"])
      [validateByte "1", createByte "1", validateByte "2", createByte "2"] (by decide +kernel)
    exact ⟨s, hs, of_decide_eq_true hp⟩
