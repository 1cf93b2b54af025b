import Peerc.Handshake.Theorems.Pinning

namespace TrustStore

variable {P : Primitives} {s s' : TrustStore} {c : Call} {id : DbText}

-- The call, if it returns, makes a device REVOKED that `id` is linked to, or links `id` to one.
def Taints (s : TrustStore) (id : DbText) : Call → Prop
  | .revokeDevice d _ _ _  => ∃ x : DbText, x.val = d ∧ s.Linked id x
  | .recordRotation cert _ => ∃ old new : DbText,
    old.val = cert.oldDeviceId ∧ new.val = cert.newDeviceId ∧
      ((s.Linked id old ∧ s.Tainted new) ∨ (s.Linked id new ∧ s.Tainted old))
  | _ => False

theorem Effect.tainted_iff (h : Effect P s c s') : s'.Tainted id ↔ s.Tainted id ∨ s.Taints id c := by
  constructor
  case mp =>
    rintro ⟨x, hl, hr⟩
    have keep (ht : s'.transitions = s.transitions)
        (hc : ∀ {d revokedBy reason now}, c ≠ .revokeDevice d revokedBy reason now) : s.Tainted id := by
      rw [Linked, neighbors_congr ht] at hl
      exact ⟨x, hl, h.revoked_before hc hr⟩
    cases h
    case revokeDevice d by' reason now r hf hs =>
      replace hl : s.Linked id x := by rwa [Linked, neighbors_congr rfl] at hl
      rw [revoked, status?_update] at hr
      split at hr
      case isTrue hx => exact .inr ⟨x, by rw [hx], hl⟩
      case isFalse => exact .inl ⟨x, hl, hr⟩
    case recordRotation hv hrec ho hcarry =>
      have hr := (Effect.recordRotation hv hrec ho hcarry).revoked_before (by rintro _ _ _ _ ⟨⟩) hr
      rcases linked_replace_cases hl with hl | ⟨hl, hx⟩ | ⟨hl, hx⟩
      · exact .inl ⟨x, hl, hr⟩
      · exact .inr ⟨_, _, hrec.oldDeviceId, hrec.newDeviceId, .inl ⟨hl, x, hx, hr⟩⟩
      · exact .inr ⟨_, _, hrec.oldDeviceId, hrec.newDeviceId, .inr ⟨hl, x, hx, hr⟩⟩
    all_goals exact .inl (keep rfl (by rintro _ _ _ _ ⟨⟩))
  case mpr =>
    rintro (ht | ht)
    case inl => exact h.tainted ht
    case inr =>
      have he := h
      cases h
      case revokeDevice hf hs =>
        obtain ⟨x, hx, hl⟩ := ht
        cases Subtype.ext hx
        refine ⟨_, he.linked hl, ?_⟩
        rw [revoked, status?_update, if_pos rfl, hf]
        rfl
      case recordRotation hv hrec ho hcarry =>
        obtain ⟨old, new, hold, hnew, ht⟩ := ht
        cases Subtype.ext (hold.trans hrec.oldDeviceId.symm)
        cases Subtype.ext (hnew.trans hrec.newDeviceId.symm)
        rcases ht with ⟨hl, ht⟩ | ⟨hl, ht⟩
        · exact (he.tainted ht).linked ((he.linked hl).trans linked_replace)
        · exact (he.tainted ht).linked ((he.linked hl).trans (Linked.symm linked_replace))
      all_goals exact ht.elim

-- Some call of the sequence returns and taints `id`.
def TaintedBy (P : Primitives) (s : TrustStore) (id : DbText) (calls : List Call) : Prop :=
  ∃ pre c post, calls = pre ++ c :: post ∧ ¬c.Raises P (s.run P pre) ∧ (s.run P pre).Taints id c

theorem taintedBy_cons {calls : List Call} : s.TaintedBy P id (c :: calls) ↔
    (¬c.Raises P s ∧ s.Taints id c) ∨ (c.after P s).TaintedBy P id calls := by
  constructor
  · rintro ⟨pre, c', post, he, hr, ht⟩
    cases pre
    case nil =>
      cases he
      exact .inl ⟨hr, ht⟩
    case cons =>
      cases he
      exact .inr ⟨_, c', post, rfl, hr, ht⟩
  · rintro (⟨hr, ht⟩ | ⟨pre, c', post, rfl, hr, ht⟩)
    · exact ⟨[], c, calls, rfl, hr, ht⟩
    · exact ⟨c :: pre, c', post, rfl, hr, ht⟩

theorem tainted_run_iff {calls : List Call} :
    (s.run P calls).Tainted id ↔ s.Tainted id ∨ s.TaintedBy P id calls := by
  induction calls generalizing s
  case nil =>
    refine ⟨.inl, fun h => h.resolve_right ?_⟩
    rintro ⟨pre, c, post, he, -⟩
    simp at he
  case cons c calls hi =>
    have hstep : (c.after P s).Tainted id ↔ s.Tainted id ∨ (¬c.Raises P s ∧ s.Taints id c) := by
      by_cases hc : c.Raises P s
      · simp [Call.after_of_raises hc, hc]
      · simp [(Call.effect_of_returns hc).tainted_iff, hc]
    rw [run_cons, hi, taintedBy_cons, hstep, or_assoc]

end TrustStore

namespace Handshake

open TrustStore

variable {P : Primitives} {α : Type} {env : Env} {party : Party} {m : Json} {pub : Bytes}
variable {dec : TrustDecision} {s s₁ s' : TrustStore} {cache : NonceCache} {sh' : Shared} {r : Result}
variable {id : DbText} {peer : Fields}

-- What `check_with_rotation` says about the peer of a result at the moment it is returned
def Result.Admissible (r : Result) (sh : Shared) : Prop :=
  ∀ s dec, sh.store = some s →
    (checkWithRotation r.peerDeviceId.val r.peerPublicKey.val).run' s = some dec →
    dec ≠ .revoked ∧ dec ≠ .keyChanged

-- When the device `peer` is looked up, no device linked to it is REVOKED, and the user does not change that
-- until the function returns.
def Untainted (P : Primitives) (env : Env) (s : TrustStore) (peer : Fields) : Prop :=
  let found := s.run P env.before
  let checked := (Call.checkAndUpdateTrust peer.deviceId.val peer.publicKey.val peer.senderName.val
    env.now.trust).after P found
  ∀ id : DbText, id.val = peer.deviceId.val → ¬found.Tainted id ∧ ¬checked.TaintedBy P id env.after

-- After the trust step the peer has a row with the key that it has presented.
theorem TrustStep.row {now : Double} (h : TrustStep peer now (some s) dec (some s')) :
    ∃ id r, id.val = peer.deviceId.val ∧ s'.devices.find? id = some r ∧
      r.publicKey.val = peer.publicKey.val := by
  cases h
  case firstSeen id pk name devices hd hk hn hf hi =>
    refine ⟨id, pendingRow id pk name now, hd, ?_, hk⟩
    simp [Table.find?_insert? hi, pendingRow]
  case touch id r hd hk hs hf =>
    exact ⟨id, { r with lastSeen := now }, hd, by simp [touched, Table.find?_update, hf], hk⟩

theorem admissible_iff (h : s.directDecision id peer.publicKey.val ≠ .keyChanged)
    (hid : id.val = peer.deviceId.val) (hr : r.Describes peer dec) :
    r.Admissible ⟨some s, cache⟩ ↔ ¬s.Tainted id := by
  classical
  have hrun : (checkWithRotation r.peerDeviceId.val r.peerPublicKey.val).run' s = some
      (if s.Tainted id then .revoked else if s.Backed id then .trusted
      else s.directDecision id peer.publicKey.val) := by
    rw [hr.deviceId, hr.publicKey, ← hid, EStateM.run'_eq, checkWithRotation_run]
    simp only [EStateM.Result.value?, h, if_false]
  constructor
  case mp =>
    intro ha ht
    rw [if_pos ht] at hrun
    exact (ha s .revoked rfl hrun).left rfl
  case mpr =>
    rintro ht _ dec ⟨⟩ hdec
    cases hrun.symm.trans hdec
    rw [if_neg ht]
    split
    · exact ⟨by rintro ⟨⟩, by rintro ⟨⟩⟩
    · exact ⟨fun hd => ht (directDecision_eq_revoked hd), h⟩

theorem Script.admissible_iff_untainted {script : Script α} (hread : script.read = .ok m)
    (hres : ∀ {pub dec r}, script.reply m pub dec >>= script.finish = .ok r →
      r.Describes (.ofMessage m) dec)
    (h : (script.perform P env).run ⟨some s, cache⟩ = .ok r sh') :
    r.Admissible sh' ↔ Untainted P env s (.ofMessage m) := by
  obtain ⟨m', pub, dec, store, sent, ha, hsent, hfin, hst⟩ := Script.perform_eq_ok h
  cases hread.symm.trans ha.read
  have hd := hres (Except.bind_eq_ok.mpr ⟨sent, hsent, hfin⟩)
  obtain ⟨store', cache'⟩ := sh'
  have ht : TrustStep (.ofMessage m) env.now.trust (some (s.run P env.before)) dec store := ha.trust
  obtain ⟨checked, rfl⟩ : ∃ checked, store = some checked := by
    cases ht <;> exact ⟨_, rfl⟩
  cases (show store' = some (checked.run P env.after) from hst)
  obtain ⟨id, row, hid, hf, hk⟩ := ht.row
  -- The pin is still there when the function returns.
  have hkey : (checked.run P env.after).directDecision id (Fields.ofMessage m).publicKey.val ≠
      .keyChanged := by
    obtain ⟨row', hf', hadv⟩ := run_extends P checked env.after id row hf
    rw [ne_eq, directDecision_eq_keyChanged_iff]
    rintro ⟨row'', hf'', hne⟩
    cases hf'.symm.trans hf''
    exact hne (hadv.publicKey ▸ hk)
  have hstep : checked.Tainted id ↔ (s.run P env.before).Tainted id := by
    rw [(ht.effect (P := P)).tainted_iff]
    exact ⟨fun h => h.resolve_right not_false, .inl⟩
  rw [admissible_iff hkey hid hd, tainted_run_iff, hstep, not_or, Untainted, ht.after]
  constructor
  · intro h id' hid'
    cases Subtype.ext (hid.trans hid'.symm)
    exact h
  · exact fun h => h id hid

theorem no_revoked_lineage_iff (P : Primitives) (party : Party) (env : Env) (s : TrustStore)
    (cache : NonceCache) (m : Json) (r : Result) (sh' : Shared) :
    (awaitFrame P "handshake_response" env.first = .ok m →
      (performHandshakeInitiator P party env).run ⟨some s, cache⟩ = .ok r sh' →
      (r.Admissible sh' ↔ Untainted P env s (.ofMessage m))) ∧
    (awaitFrame P "handshake_init" env.first = .ok m →
      (performHandshakeResponder P party env).run ⟨some s, cache⟩ = .ok r sh' →
      (r.Admissible sh' ↔ Untainted P env s (.ofMessage m))) := by
  constructor
  case left =>
    intro hread h
    rw [performHandshakeInitiator_eq, run_bind_eq_ok] at h
    obtain ⟨⟨st, frame⟩, sh, hs, h⟩ := h
    cases (liftExcept_eq_ok.mp hs).right
    refine Script.admissible_iff_untainted ?_ initiatorScript_result h
    obtain ⟨m', _, _, _, _, ha, -⟩ := Script.perform_eq_ok h
    obtain ⟨_, -, hm⟩ := Except.bind_eq_ok.mp ha.read
    cases hread.symm.trans hm
    exact ha.read
  case right =>
    intro hread h
    rw [performHandshakeResponder_eq] at h
    exact Script.admissible_iff_untainted hread responderScript_result h

open Agreement

namespace Agreement

-- Alice's certificate for carol is on file, and the user has revoked carol.
def successorRevoked : TrustStore :=
  (Call.revokeDevice (deviceIdText prims carolKey).val (Str.ofString "user") none .zero).after prims rotated

end Agreement

-- A handshake with alice completes, although `check_with_rotation` would answer REVOKED.
theorem no_revoked_lineage_successor :
    ∃ r sh, (performHandshakeResponder prims (device bobKey) (peerEnv aliceKey 1)).run
      ⟨some successorRevoked, shared.cache⟩ = .ok r sh ∧ ¬r.Admissible sh := by
  have hf : ∃ row, successorRevoked.devices.find? (deviceIdText prims aliceKey) = some row ∧
      row.publicKey.val = aliceKey.hex ∧ row.status = .trusted := by
    have h : (successorRevoked.devices.find? (deviceIdText prims aliceKey)).map
        (fun row => (row.publicKey.val, row.status)) = some (aliceKey.hex, .trusted) := by
      decide +kernel
    simpa using h
  obtain ⟨row, hf, hk, hs⟩ := hf
  have ht : TrustStep (.ofMessage (initMsg aliceKey)) .zero (some successorRevoked) _ (some _) :=
    .touch rfl hf hk (by rw [hs]; rintro ⟨⟩)
  obtain ⟨r, cache, hr, hd⟩ := alice_proves.completes ht
  refine ⟨r, _, hr, fun ha => (ha _ .revoked rfl ?_).left rfl⟩
  rw [hd.deviceId, hd.publicKey]
  decide +kernel

-- Alice's second handshake, with nobody revoked
theorem no_revoked_lineage_unlinked :
    ∃ r sh, (performHandshakeResponder prims (device bobKey) (peerEnv aliceKey 1)).run
        ⟨some seen, shared.cache⟩ = .ok r sh ∧ r.Admissible sh := by
  have ht : TrustStep (.ofMessage (initMsg aliceKey)) .zero (some seen) _ (some _) :=
    @TrustStep.touch _ _ seen (deviceIdText prims aliceKey) aliceRow rfl rfl rfl nofun
  obtain ⟨r, cache, hr, -⟩ := alice_proves.completes ht
  refine ⟨r, _, hr, ?_⟩
  refine ((no_revoked_lineage_iff prims (device bobKey) (peerEnv aliceKey 1) seen shared.cache
    (initMsg aliceKey) r _).right alice_proves.read hr).mpr fun id hid => ⟨?_, ?_⟩
  · obtain rfl : id = deviceIdText prims aliceKey := Subtype.ext hid
    exact any_rotationChain.not.mp (by decide +kernel)
  · rintro ⟨pre, c, post, he, -⟩
    simp [peerEnv] at he

end Handshake
