import Peerc.Identity.Effect
import Peerc.Lib.Sort
import Peerc.Trust.Chain

-- The order of a rotation history

-- The device id of a keypair, as the store keeps it
def DeviceKeypair.storedId (kp : DeviceKeypair) (P : Primitives) : DbText :=
  ⟨kp.deviceId P, (Bytes.hex_isAscii _).encodable⟩

-- `kp` was replaced by the first of `kps`, this one by the next and so on. `certs` are the certificates
-- that were created for it, at whatever times the clocks gave.
inductive Rotates (P : Primitives) :
    DeviceKeypair → (kps : List DeviceKeypair) → (certs : List TransitionCertificate) → Prop
  | last {kp} : Rotates P kp [] []
  | next {kp kp' kps cert certs ts} (created : createTransitionCertificate P kp kp' ts = .ok cert)
    (rest : Rotates P kp' kps certs) : Rotates P kp (kp' :: kps) (cert :: certs)

structure RotationHistory (P : Primitives) where
  first    : DeviceKeypair
  later    : List DeviceKeypair
  certs    : List TransitionCertificate
  rotates  : Rotates P first later certs
  distinct : ((first :: later).map (·.storedId P)).Nodup

namespace Rotates

variable {P : Primitives} {kp : DeviceKeypair} {kps : List DeviceKeypair} {cert cert' : TransitionCertificate}
  {certs : List TransitionCertificate}

theorem new_ids (h : Rotates P kp kps certs) :
    certs.map (·.newDeviceId) = kps.map (·.deviceId P) := by
  induction h
  case last => rfl
  case next created rest hi =>
    rw [List.map_cons, List.map_cons, hi, (createTransitionCertificate_fields created).right.left]

theorem old_mem (h : Rotates P kp kps certs) (hc : cert ∈ certs) :
    cert.oldDeviceId ∈ (kp :: kps).map (·.deviceId P) := by
  induction h
  case last => cases hc
  case next created rest hi =>
    rcases List.mem_cons.mp hc with rfl | hc
    · rw [(createTransitionCertificate_fields created).left]
      exact List.mem_cons_self
    · exact List.mem_cons_of_mem _ (hi hc)

end Rotates

namespace RotationHistory

variable {P : Primitives} {h : RotationHistory P} {cert cert' : TransitionCertificate} {id : DbText}
  {t : Transition} {s : TrustStore}

def ids (h : RotationHistory P) : List DbText :=
  (h.first :: h.later).map (·.storedId P)

theorem nodup_ids : h.ids.Nodup :=
  h.distinct

theorem mem_ids : id ∈ h.ids ↔ id.val ∈ (h.first :: h.later).map (·.deviceId P) := by
  simp only [ids, List.mem_map]
  constructor
  · rintro ⟨kp, hk, rfl⟩
    exact ⟨kp, hk, rfl⟩
  · rintro ⟨kp, hk, he⟩
    exact ⟨kp, hk, Subtype.ext he⟩

-- A device of the history has the id of a certificate.
theorem old_mem (hc : cert ∈ h.certs) (hid : id.val = cert.oldDeviceId) : id ∈ h.ids :=
  mem_ids.mpr (hid ▸ h.rotates.old_mem hc)

theorem new_mem_later (hc : cert ∈ h.certs) (hid : id.val = cert.newDeviceId) :
    id ∈ h.later.map (·.storedId P) := by
  have hm : cert.newDeviceId ∈ h.later.map (·.deviceId P) :=
    h.rotates.new_ids ▸ List.mem_map_of_mem hc
  obtain ⟨kp, hk, he⟩ := List.mem_map.mp hm
  exact List.mem_map.mpr ⟨kp, hk, Subtype.ext (he.trans hid.symm)⟩

theorem new_mem (hc : cert ∈ h.certs) (hid : id.val = cert.newDeviceId) : id ∈ h.ids :=
  List.mem_cons_of_mem _ (new_mem_later hc hid)

-- No rotation leads back to the first device.
theorem new_ne_first (hc : cert ∈ h.certs) : cert.newDeviceId ≠ h.first.deviceId P := by
  intro he
  have hm : h.first.storedId P ∈ h.later.map (·.storedId P) := new_mem_later hc he.symm
  exact (List.nodup_cons.mp h.distinct).left hm

theorem cert_unique (hc : cert ∈ h.certs) (hc' : cert' ∈ h.certs)
    (he : cert.newDeviceId = cert'.newDeviceId) : cert = cert' := by
  have hn : (h.later.map (·.storedId P)).Nodup := (List.nodup_cons.mp h.distinct).right
  have hn : ((h.later.map (·.storedId P)).map Subtype.val).Nodup := hn.map Subtype.val_injective
  have hm : (h.later.map (·.storedId P)).map Subtype.val = h.later.map (·.deviceId P) := List.map_map
  rw [hm, ← h.rotates.new_ids] at hn
  exact List.inj_on_of_nodup_map hn hc hc' he

-- A transition of the history, or one between other devices
def Admissible (h : RotationHistory P) (t : Transition) : Prop :=
  (∃ cert ∈ h.certs, t.Records cert) ∨ (t.oldDeviceId ∉ h.ids ∧ t.newDeviceId ∉ h.ids)

-- The store has the transitions of the history, and no others for its devices.
structure Traced (h : RotationHistory P) (s : TrustStore) : Prop where
  recorded : ∀ cert ∈ h.certs, ∃ t ∈ s.transitions.rows, t.Records cert
  only     : ∀ t ∈ s.transitions.rows, h.Admissible t

namespace Traced

open TrustStore

theorem mem_of_neighbor {x y : DbText} (ht : h.Traced s) (hx : x ∈ h.ids) (hy : y ∈ s.neighbors x) :
    y ∈ h.ids := by
  obtain ⟨t, hm, ⟨rfl, rfl⟩ | ⟨rfl, rfl⟩⟩ := mem_neighbors.mp hy
  all_goals rcases ht.only t hm with ⟨cert, hc, hr⟩ | ⟨hold, hnew⟩
  · exact new_mem hc hr.newDeviceId
  · exact absurd hx hold
  · exact old_mem hc hr.oldDeviceId
  · exact absurd hx hnew

end Traced

end RotationHistory

theorem Rotates.linked {P : Primitives} {s : TrustStore} {kp : DeviceKeypair} {kps : List DeviceKeypair}
    {certs : List TransitionCertificate} (h : Rotates P kp kps certs)
    (hr : ∀ cert ∈ certs, ∃ t ∈ s.transitions.rows, t.Records cert) :
    ∀ kp' ∈ kp :: kps, s.Linked (kp.storedId P) (kp'.storedId P) := by
  induction h
  case last =>
    intro kp' hk
    obtain rfl := List.mem_singleton.mp hk
    exact .refl
  case next kp kp₁ kps cert certs ts created rest hi =>
    intro kp' hk
    rcases List.mem_cons.mp hk with rfl | hk
    · exact .refl
    · obtain ⟨t, ht, hrec⟩ := hr cert List.mem_cons_self
      obtain ⟨hold, hnew, -⟩ := createTransitionCertificate_fields created
      have ho : t.oldDeviceId = kp.storedId P := Subtype.ext (hrec.oldDeviceId.trans hold)
      have hn : t.newDeviceId = kp₁.storedId P := Subtype.ext (hrec.newDeviceId.trans hnew)
      have hl := TrustStore.linked_of_mem ht
      rw [ho, hn] at hl
      exact hl.trans (hi (fun c hc => hr c (List.mem_cons_of_mem _ hc)) kp' hk)

theorem Rotates.map_ids {P : Primitives} {α : Type} {f : DbText → α} {g : TransitionCertificate → α}
    {kp : DeviceKeypair} {kps : List DeviceKeypair} {certs : List TransitionCertificate}
    (h : Rotates P kp kps certs)
    (hf : ∀ cert ∈ certs, ∀ id : DbText, id.val = cert.newDeviceId → f id = g cert) :
    kps.map (fun kp => f (kp.storedId P)) = certs.map g := by
  induction h
  case last => rfl
  case next kp kp' kps cert certs ts created rest hi =>
    have hnew := (createTransitionCertificate_fields created).right.left
    rw [List.map_cons, List.map_cons, hf cert List.mem_cons_self _ hnew.symm,
      hi fun c hc => hf c (List.mem_cons_of_mem _ hc)]

namespace RotationHistory

open TrustStore Worklist

variable {P : Primitives} {h : RotationHistory P} {s : TrustStore} {x y : DbText}

namespace Traced

-- The devices of the history are the component of each of them.
theorem linked_iff (ht : h.Traced s) (hx : x ∈ h.ids) : s.Linked x y ↔ y ∈ h.ids := by
  constructor
  · intro hl
    induction hl
    case refl => exact hx
    case tail hz hi => exact ht.mem_of_neighbor hi hz
  · intro hy
    obtain ⟨kp, hk, rfl⟩ := List.mem_map.mp hx
    obtain ⟨kp', hk', rfl⟩ := List.mem_map.mp hy
    have hl := h.rotates.linked ht.recorded
    exact (hl kp hk).symm.trans (hl kp' hk')

theorem orderKey_first (ht : h.Traced s) : s.orderKey (h.first.storedId P) = .zero := by
  have hn : s.transitions.rows.find? (·.newDeviceId = h.first.storedId P) = none := by
    refine List.find?_eq_none.mpr fun t hm hnew => ?_
    have hnew := of_decide_eq_true hnew
    rcases ht.only t hm with ⟨cert, hc, hr⟩ | ⟨-, hn⟩
    · exact new_ne_first hc (hr.newDeviceId.symm.trans (congrArg Subtype.val hnew))
    · exact hn (hnew ▸ List.mem_cons_self)
  rw [orderKey, hn]

theorem orderKey_new {cert : TransitionCertificate} (ht : h.Traced s) (hc : cert ∈ h.certs)
    (hid : x.val = cert.newDeviceId) : s.orderKey x = cert.timestamp := by
  obtain ⟨t, hm, hr⟩ := ht.recorded cert hc
  have hs : (s.transitions.rows.find? (·.newDeviceId = x)).isSome :=
    List.find?_isSome.mpr ⟨t, hm, decide_eq_true (Subtype.ext (hr.newDeviceId.trans hid.symm))⟩
  obtain ⟨t', hf⟩ := Option.isSome_iff_exists.mp hs
  have hnew := List.find?_some hf
  have hnew : t'.newDeviceId = x := of_decide_eq_true hnew
  have hk : s.orderKey x = t'.timestamp := by rw [orderKey, hf]
  -- Whichever row is found, it records the one certificate that introduces the device.
  rcases ht.only t' (List.mem_of_find?_eq_some hf) with ⟨cert', hc', hr'⟩ | ⟨-, hn⟩
  · have he : cert'.newDeviceId = cert.newDeviceId := by rw [← hr'.newDeviceId, hnew, hid]
    rw [hk, hr'.timestamp, cert_unique hc' hc he]
  · exact absurd (new_mem hc hid) (hnew ▸ hn)

-- The keys by which `get_rotation_chain` sorts
theorem keys (ht : h.Traced s) :
    h.ids.map (fun id => (s.orderKey id).units) = 0 :: h.certs.map (·.timestamp.units) := by
  have hl := h.rotates.map_ids (f := fun id => (s.orderKey id).units) fun cert hc id hid =>
    congrArg Double.units (ht.orderKey_new hc hid)
  rw [ids, List.map_cons, List.map_cons, ht.orderKey_first, List.map_map, ← hl]
  rfl

end Traced

end RotationHistory

namespace TrustStore

open Worklist

variable {s : TrustStore} {id : DbText}

-- What `get_rotation_chain` can return: the visited set is iterated in some order and sorted.
def Returns (s : TrustStore) (id : DbText) (chain : List DbText) : Prop :=
  ∃ visited order : List DbText, Loop s.neighbors [id] [] visited ∧ order.Perm visited ∧
    chain = order.insertionSort (SortByKey.Le fun id => (s.orderKey id).units)

theorem exists_returns (s : TrustStore) (id : DbText) :
    ∃ chain, (getRotationChain id.val).run s = .ok chain s ∧ s.Returns id chain := by
  obtain ⟨visited, hl, hr⟩ := s.exists_loop (x := id)
  exact ⟨_, getRotationChain_run, visited, visited, hl, .refl _, hr⟩

end TrustStore

namespace RotationHistory

open TrustStore Worklist

variable {P : Primitives} {h : RotationHistory P} {s : TrustStore} {x : DbText}

namespace Traced

theorem returns_iff {chain : List DbText} (ht : h.Traced s) (hx : x ∈ h.ids) :
    s.Returns x chain ↔ ∃ order : List DbText, order.Perm h.ids ∧
      chain = order.insertionSort (SortByKey.Le fun id => (s.orderKey id).units) := by
  have hp {visited} (hl : Loop s.neighbors [x] [] visited) : visited.Perm h.ids := by
    refine (List.perm_ext_iff_of_nodup (hl.nodup .nil) nodup_ids).mpr fun y => ?_
    rw [hl.mem_iff (List.forall_mem_nil _), ← ht.linked_iff hx]
    simp
  constructor
  · rintro ⟨visited, order, hl, ho, hc⟩
    exact ⟨order, ho.trans (hp hl), hc⟩
  · rintro ⟨order, ho, hc⟩
    obtain ⟨visited, hl, -⟩ := s.exists_loop (x := x)
    exact ⟨visited, order, hl, ho.trans (hp hl).symm, hc⟩

theorem ordered_iff (ht : h.Traced s) :
    (∀ id ∈ h.ids, ∀ chain, s.Returns id chain → chain = h.ids) ↔
      (0 :: h.certs.map (·.timestamp.units)).IsChain (· < ·) := by
  rw [← ht.keys, List.isChain_map, ← SortByKey.insertionSort_eq_iff nodup_ids]
  constructor
  · intro ho order hp
    exact ho _ List.mem_cons_self _ ((ht.returns_iff List.mem_cons_self).mpr ⟨order, hp, rfl⟩)
  · intro ho id hid chain hr
    obtain ⟨order, hp, rfl⟩ := (ht.returns_iff hid).mp hr
    exact ho order hp

end Traced

-- The certificates of the history are recorded, in some order and among other calls. What else is
-- recorded is about other devices.
structure RecordedBy (h : RotationHistory P) (calls : List Call) : Prop where
  every : ∀ cert ∈ h.certs, ∃ pre now post, calls = pre ++ .recordRotation cert now :: post ∧
    ¬(Call.recordRotation cert now).Raises P (empty.run P pre)
  only  : ∀ pre cert now post, calls = pre ++ .recordRotation cert now :: post →
    ¬(Call.recordRotation cert now).Raises P (empty.run P pre) →
    cert ∈ h.certs ∨ ∀ id ∈ h.ids, cert.oldDeviceId ≠ id.val ∧ cert.newDeviceId ≠ id.val

-- The condition on a single call
def Only (h : RotationHistory P) (s : TrustStore) (c : Call) : Prop :=
  ∀ cert now, c = .recordRotation cert now → ¬c.Raises P s →
    cert ∈ h.certs ∨ ∀ id ∈ h.ids, cert.oldDeviceId ≠ id.val ∧ cert.newDeviceId ≠ id.val

variable {calls : List Call} {c : Call} {s' : TrustStore} {cert : TransitionCertificate}

theorem RecordedBy.only_at {pre post : List Call} (hr : h.RecordedBy calls)
    (hs : calls = pre ++ c :: post) : h.Only (empty.run P pre) c := by
  rintro cert now rfl hc
  exact hr.only pre cert now post hs hc

-- A new row keeps to the history.
theorem only_step (he : Effect P s c s') (hc : ¬c.Raises P s) (ho : h.Only s c)
    (hi : ∀ t ∈ s.transitions.rows, h.Admissible t) : ∀ t ∈ s'.transitions.rows, h.Admissible t := by
  rcases he.transitions with ht | ⟨cert, now, t, devices, rfl, hrec, -, rfl⟩
  · rw [ht]
    exact hi
  · intro t' hm
    rcases Table.mem_replace.mp hm with rfl | ⟨hm, -⟩
    · rcases ho cert now rfl hc with hcert | hother
      · exact .inl ⟨cert, hcert, hrec⟩
      · refine .inr ⟨fun hid => ?_, fun hid => ?_⟩
        · exact (hother _ hid).left hrec.oldDeviceId.symm
        · exact (hother _ hid).right hrec.newDeviceId.symm
    · exact hi t' hm

-- A certificate that has been recorded stays: only the same certificate has the same two devices.
theorem recorded_step (he : Effect P s c s') (hc : ¬c.Raises P s) (ho : h.Only s c)
    (hcert : cert ∈ h.certs) (hi : ∃ t ∈ s.transitions.rows, t.Records cert) :
    ∃ t ∈ s'.transitions.rows, t.Records cert := by
  obtain ⟨t, hm, hrec⟩ := hi
  rcases he.transitions with ht | ⟨cert', now, t', devices, rfl, hrec', -, rfl⟩
  · exact ⟨t, ht ▸ hm, hrec⟩
  · by_cases hk : t.key = t'.key
    case neg => exact ⟨t, Table.mem_replace.mpr (.inr ⟨hm, hk⟩), hrec⟩
    case pos =>
      have hnew : t.newDeviceId = t'.newDeviceId := (Prod.mk.inj hk).right
      have he : cert'.newDeviceId = cert.newDeviceId := by
        rw [← hrec.newDeviceId, hnew, hrec'.newDeviceId]
      refine ⟨t', Table.mem_replace.mpr (.inl rfl), ?_⟩
      rcases ho cert' now rfl hc with hcert' | hother
      · exact cert_unique hcert' hcert he ▸ hrec'
      · exact absurd (he.trans hrec.newDeviceId.symm) (hother _ (new_mem hcert hrec.newDeviceId)).right

theorem recorded_of_effect {now : Double} (he : Effect P s (.recordRotation cert now) s') :
    ∃ t ∈ s'.transitions.rows, t.Records cert := by
  cases he with
  | recordRotation verified records old carry =>
    exact ⟨_, Table.mem_replace.mpr (.inl rfl), records⟩

theorem RecordedBy.traced (hr : h.RecordedBy calls) : h.Traced (empty.run P calls) where
  recorded cert hcert := by
    obtain ⟨pre, now, post, hs, hc⟩ := hr.every cert hcert
    have hrun : empty.run P calls =
        ((Call.recordRotation cert now).after P (empty.run P pre)).run P post := by
      rw [hs, run_append, run_cons]
    rw [hrun]
    refine run_induction_returns (Q := h.Only)
      (fun he hc ho hi => recorded_step he hc ho hcert hi) ?_ fun pre' c post' hs' => ?_
    · exact recorded_of_effect (Call.effect_of_returns hc)
    · have ho : h.Only (empty.run P (pre ++ .recordRotation cert now :: pre')) c :=
        hr.only_at (by rw [hs, hs', List.append_assoc, List.cons_append])
      rwa [run_append, run_cons] at ho
  only := by
    refine run_induction_returns (Q := h.Only) (fun he hc ho hi => only_step he hc ho hi) nofun ?_
    exact fun pre c post hs => hr.only_at hs

end RotationHistory

open TrustStore

-- Whatever the order of the calls, `get_rotation_chain` returns the history from the oldest to the newest
-- device iff the clocks of the signing devices agreed with this order.
theorem rotation_chain_ordered_iff (P : Primitives) (h : RotationHistory P) (calls : List Call)
    (hr : h.RecordedBy calls) :
    (∀ id, ∃ chain, (getRotationChain id.val).run (empty.run P calls) = .ok chain (empty.run P calls) ∧
      (empty.run P calls).Returns id chain) ∧
    ((∀ id ∈ h.ids, ∀ chain, (empty.run P calls).Returns id chain → chain = h.ids) ↔
      (0 :: h.certs.map (·.timestamp.units)).IsChain (· < ·)) :=
  ⟨exists_returns _, hr.traced.ordered_iff⟩

namespace RotationHistory.Clocks

-- The first of three devices is replaced at `ts₁` and the second one at `ts₂`. The later rotation is
-- recorded first.

def device (b : UInt8) : DeviceKeypair :=
  ⟨List.replicate 32 b⟩

def certificate (b b' : UInt8) (ts : Double) : TransitionCertificate :=
  match createTransitionCertificate .transparent (device b) (device b') ts with
  | .ok cert => cert
  | .error _ => .signedWith [] [] [] []

theorem certificate_created {b b' : UInt8} {ts : Double}
    (h : (device b).deviceId .transparent ≠ (device b').deviceId .transparent) :
    createTransitionCertificate .transparent (device b) (device b') ts = .ok (certificate b b' ts) := by
  obtain ⟨cert, hc⟩ := createTransitionCertificate_of_ne ts h
  rw [certificate, hc]

theorem rotates (ts₁ ts₂ : Double) : Rotates .transparent (device 1) [device 2, device 3]
    [certificate 1 2 ts₁, certificate 2 3 ts₂] :=
  .next (certificate_created (by decide +kernel)) <|
    .next (certificate_created (by decide +kernel)) .last

theorem distinct : ((device 1 :: [device 2, device 3]).map (·.storedId .transparent)).Nodup := by
  decide +kernel

def history (ts₁ ts₂ : Double) : RotationHistory .transparent where
  first    := device 1
  later    := [device 2, device 3]
  certs    := [certificate 1 2 ts₁, certificate 2 3 ts₂]
  rotates  := rotates ts₁ ts₂
  distinct := distinct

def calls (ts₁ ts₂ : Double) : List Call :=
  [.recordRotation (certificate 2 3 ts₂) .zero, .recordRotation (certificate 1 2 ts₁) .zero]

-- Both calls return.
def accepted (ts₁ ts₂ : Double) : Bool :=
  (((Call.recordRotation (certificate 2 3 ts₂) .zero).exec .transparent).run' empty).isSome &&
    (((Call.recordRotation (certificate 1 2 ts₁) .zero).exec .transparent).run'
      (empty.run .transparent [.recordRotation (certificate 2 3 ts₂) .zero])).isSome

theorem recordedBy {ts₁ ts₂ : Double} (h : accepted ts₁ ts₂) :
    (history ts₁ ts₂).RecordedBy (calls ts₁ ts₂) where
  every cert hc := by
    obtain ⟨h₂, h₁⟩ := Bool.and_eq_true_iff.mp h
    simp only [history, List.mem_cons, List.not_mem_nil, or_false] at hc
    rcases hc with rfl | rfl
    · exact ⟨[_], _, [], rfl, Call.returns_of_isSome h₁⟩
    · exact ⟨[], _, [_], rfl, Call.returns_of_isSome h₂⟩
  only pre cert now post hs _ := by
    have hm : Call.recordRotation cert now ∈ calls ts₁ ts₂ := hs ▸ by simp
    simp only [calls, List.mem_cons, Call.recordRotation.injEq, List.not_mem_nil, or_false] at hm
    rcases hm with ⟨rfl, -⟩ | ⟨rfl, -⟩
    · exact .inl (List.mem_cons_of_mem _ List.mem_cons_self)
    · exact .inl List.mem_cons_self

def one : Double := ⟨0x3FF0000000000000⟩

def two : Double := ⟨0x4000000000000000⟩

end RotationHistory.Clocks

open RotationHistory.Clocks

-- The clock of the second device is behind that of the first one.
theorem rotation_chain_disordered :
    (history two one).RecordedBy (calls two one) ∧
      (getRotationChain ((device 1).deviceId .transparent)).run' (empty.run .transparent (calls two one)) =
        some [(device 1).storedId .transparent, (device 3).storedId .transparent,
          (device 2).storedId .transparent] :=
  ⟨recordedBy (by decide +kernel), by decide +kernel⟩

theorem rotation_chain_ordered_clocks :
    (history one two).RecordedBy (calls one two) ∧
      ∀ id ∈ (history one two).ids, ∀ chain,
        (empty.run .transparent (calls one two)).Returns id chain → chain = (history one two).ids := by
  have h : (history one two).RecordedBy (calls one two) := recordedBy (by decide +kernel)
  exact ⟨h, (rotation_chain_ordered_iff .transparent _ _ h).right.mpr (by decide +kernel)⟩
