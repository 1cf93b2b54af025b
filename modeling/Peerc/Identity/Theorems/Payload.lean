import Peerc.Identity.Effect
import Peerc.Lib.Separated

-- What the signature under a certificate says

namespace TransitionCertificate

variable {P : Primitives} {oldId newId oldKey newKey : Str} {ts : Double} {m : Bytes}

-- The payload: four texts, each with a NUL after it, and the timestamp
theorem buildPayload_eq (h : buildPayload oldId newId oldKey newKey ts = some m) :
    ∃ a b c d, oldId.encodeUtf8 = some a ∧ newId.encodeUtf8 = some b ∧ oldKey.encodeUtf8 = some c ∧
      newKey.encodeUtf8 = some d ∧ m = rotationDomain ++ (Separated.join 0 [a, b, c, d] ++ ts.pack) := by
  simp only [buildPayload, Option.pure_def, Option.bind_eq_bind, Option.bind_eq_some_iff,
    Option.some.injEq] at h
  obtain ⟨a, ha, b, hb, c, hc, d, hd, rfl⟩ := h
  refine ⟨a, b, c, d, ha, hb, hc, hd, ?_⟩
  simp only [Separated.join_cons, Separated.join_nil, List.append_assoc, List.cons_append, List.nil_append]

-- No other certificate has the payload of one that has no NUL in its texts.
theorem payload_inj {cert cert' : TransitionCertificate}
    (hn : ∀ s ∈ [cert.oldDeviceId, cert.newDeviceId, cert.oldPublicKey, cert.newPublicKey], 0 ∉ s)
    (h : cert.payload = some m) (h' : cert'.payload = some m) :
    cert'.oldDeviceId = cert.oldDeviceId ∧ cert'.newDeviceId = cert.newDeviceId ∧
    cert'.oldPublicKey = cert.oldPublicKey ∧ cert'.newPublicKey = cert.newPublicKey ∧
    cert'.timestamp = cert.timestamp := by
  obtain ⟨a, b, c, d, ha, hb, hc, hd, rfl⟩ := buildPayload_eq h
  obtain ⟨a', b', c', d', ha', hb', hc', hd', hm⟩ := buildPayload_eq h'
  -- The timestamp are the last eight bytes.
  have hl : cert.timestamp.pack.length = cert'.timestamp.pack.length := by
    rw [Double.pack_length, Double.pack_length]
  obtain ⟨hj, ht⟩ := List.append_inj' (List.append_cancel_left hm) hl
  have hf : ∀ f ∈ [a, b, c, d], 0 ∉ f := by
    simp only [List.forall_mem_cons] at hn ⊢
    exact ⟨mt (Str.zero_mem_encodeUtf8 ha).mp hn.left, mt (Str.zero_mem_encodeUtf8 hb).mp hn.right.left,
      mt (Str.zero_mem_encodeUtf8 hc).mp hn.right.right.left,
      mt (Str.zero_mem_encodeUtf8 hd).mp hn.right.right.right.left, List.forall_mem_nil _⟩
  have he : [a', b', c', d'] = [a, b, c, d] := Separated.join_inj hf rfl hj.symm
  simp only [List.cons.injEq, and_true] at he
  obtain ⟨rfl, rfl, rfl, rfl⟩ := he
  exact ⟨Str.encodeUtf8_inj ha' ha, Str.encodeUtf8_inj hb' hb, Str.encodeUtf8_inj hc' hc,
    Str.encodeUtf8_inj hd' hd, Double.pack_injective ht.symm⟩

end TransitionCertificate

theorem created_texts {P : Primitives} {old new : DeviceKeypair} {ts : Double} {cert : TransitionCertificate}
    (h : createTransitionCertificate P old new ts = .ok cert) :
    ∀ s ∈ [cert.oldDeviceId, cert.newDeviceId, cert.oldPublicKey, cert.newPublicKey],
      s.IsAscii ∧ 0 ∉ s := by
  obtain ⟨h₁, h₂, -, h₃, h₄⟩ := createTransitionCertificate_fields h
  have hid (kp : DeviceKeypair) : (kp.deviceId P).IsAscii ∧ 0 ∉ kp.deviceId P :=
    ⟨Bytes.hex_isAscii _, Bytes.zero_notMem_hex _⟩
  have hpub (bs : Bytes) : (Base64.encode bs).IsAscii ∧ 0 ∉ Base64.encode bs :=
    ⟨Base64.encode_isAscii bs, Base64.zero_notMem_encode bs⟩
  simp only [List.forall_mem_cons, h₁, h₂, h₃, h₄]
  exact ⟨hid old, hid new, hpub _, hpub _, List.forall_mem_nil _⟩

theorem TransitionCertificate.exists_payload {cert : TransitionCertificate}
    (h : ∀ s ∈ [cert.oldDeviceId, cert.newDeviceId, cert.oldPublicKey, cert.newPublicKey], s.IsAscii) :
    ∃ m, cert.payload = some m := by
  simp only [List.forall_mem_cons] at h
  obtain ⟨h₁, h₂, h₃, h₄, -⟩ := h
  simp only [payload, buildPayload, Str.encodeUtf8, if_pos h₁.encodable, if_pos h₂.encodable,
    if_pos h₃.encodable, if_pos h₄.encodable]
  exact ⟨_, rfl⟩

-- A certificate that was created shares its payload with no other, whatever texts that one has.
theorem rotation_payload_unambiguous {P : Primitives} {old new : DeviceKeypair} {ts : Double}
    {cert : TransitionCertificate} (h : createTransitionCertificate P old new ts = .ok cert)
    (cert' : TransitionCertificate) (hp : cert'.payload = cert.payload) :
    cert'.oldDeviceId = cert.oldDeviceId ∧ cert'.newDeviceId = cert.newDeviceId ∧
    cert'.oldPublicKey = cert.oldPublicKey ∧ cert'.newPublicKey = cert.newPublicKey ∧
    cert'.timestamp.bits = cert.timestamp.bits := by
  have ht := created_texts h
  obtain ⟨m, hm⟩ := TransitionCertificate.exists_payload fun s hs => (ht s hs).left
  obtain ⟨h₁, h₂, h₃, h₄, h₅⟩ :=
    TransitionCertificate.payload_inj (fun s hs => (ht s hs).right) hm (hp.trans hm)
  exact ⟨h₁, h₂, h₃, h₄, congrArg Double.bits h₅⟩

theorem rotation_payload_unambiguous_unsigned : ∃ cert cert' : TransitionCertificate,
    createTransitionCertificate .transparent ⟨[1]⟩ ⟨[2]⟩ .zero = .ok cert ∧
    cert'.payload = cert.payload ∧ cert'.signature = [] ∧
    cert'.oldDeviceId = cert.oldDeviceId ∧ cert'.newDeviceId = cert.newDeviceId ∧
    cert'.oldPublicKey = cert.oldPublicKey ∧ cert'.newPublicKey = cert.newPublicKey ∧
    cert'.timestamp.bits = cert.timestamp.bits := by
  have hne : DeviceKeypair.deviceId ⟨[1]⟩ .transparent ≠ DeviceKeypair.deviceId ⟨[2]⟩ .transparent := by decide
  obtain ⟨cert, hc⟩ := createTransitionCertificate_of_ne .zero hne
  exact ⟨cert, { cert with signature := [] }, hc, rfl, rfl, rotation_payload_unambiguous hc _ rfl⟩
