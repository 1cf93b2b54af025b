import Peerc.Handshake.Basic

namespace Handshake

variable {P : Primitives} {f g : Fields} {b c x y : Bytes}

namespace Fields

-- The object that is signed for the fields `f`, with its keys in order
def canonical (f : Fields) : Json :=
  .obj [
    (.ofString "device_id", .str f.deviceId),
    (.ofString "ephemeral_key", .str f.ephemeralKey),
    (.ofString "nonce", .str f.nonce),
    (.ofString "public_key", .str f.publicKey),
    (.ofString "sender_name", .str f.senderName),
    (.ofString "type", .str f.type)
  ]

theorem sortKeys_toDict : Json.obj (Json.sortKeys f.toDict) = f.canonical := rfl

theorem canonical_injective (h : f.canonical = g.canonical) : f = g := by
  simp only [canonical, Json.obj.injEq, List.cons.injEq, Prod.mk.injEq, Json.str.injEq] at h
  ext1 <;> simp [h]

theorem canonical_wellFormed : f.canonical.WellFormed := by
  refine ⟨?_, trivial, trivial, trivial, trivial, trivial, trivial, trivial⟩
  simp only [List.map_cons, List.map_nil]
  decide

end Fields

-- Texts of ASCII characters, read back from their bytes
def toStr (b : Bytes) : Str :=
  b.map fun u => Fin.ofNat _ u.toNat

theorem toStr_injective : Function.Injective toStr := by
  refine List.map_injective_iff.mpr fun u v h => ?_
  have h := congrArg Fin.val h
  simp only [Fin.val_ofNat] at h
  have := u.toNat_lt
  have := v.toNat_lt
  exact UInt8.toNat_inj.mp (by omega)

theorem toStr_encodeUtf8 {t : Str} (ha : t.IsAscii) (h : t.encodeUtf8 = some b) : toStr b = t := by
  simp only [Str.encodeUtf8, if_pos ha.encodable, Option.some.injEq] at h
  subst h
  induction t
  case nil => rfl
  case cons d t hi =>
    obtain ⟨hd, ha⟩ := Str.isAscii_cons.mp ha
    rw [List.flatMap_cons, CodePoint.utf8, if_pos hd, List.singleton_append, toStr, List.map_cons]
    refine congr (congrArg List.cons ?_) (hi ha)
    ext
    simp only [Fin.val_ofNat, UInt8.toNat_ofNat']
    omega

theorem canonicalJsonBytes_spec (h : canonicalJsonBytes P f.toDict = some b) :
    f.canonical.dumps P.floats .compact = some (toStr b) := by
  simp only [canonicalJsonBytes, Fields.sortKeys_toDict, Option.bind_eq_some_iff] at h
  obtain ⟨t, hd, he⟩ := h
  rw [toStr_encodeUtf8 (Json.dumps_isAscii _ _ hd) he, hd]

-- A canonical object can be split off any text that follows it.
theorem canonicalJsonBytes_append (hb : canonicalJsonBytes P f.toDict = some b)
    (hc : canonicalJsonBytes P g.toDict = some c) (h : b ++ x = c ++ y)
    (hx : Stops (toStr x)) (hy : Stops (toStr y)) : f = g ∧ x = y := by
  have hb := canonicalJsonBytes_spec hb
  have hc := canonicalJsonBytes_spec hc
  let fuel := max f.canonical.cost g.canonical.cost
  have hf := (Json.scans P.floats fuel).left Fields.canonical_wellFormed (Json.renders_dumps _ _ hb)
    (Nat.le_max_left _ _) hx
  have hg := (Json.scans P.floats fuel).left Fields.canonical_wellFormed (Json.renders_dumps _ _ hc)
    (Nat.le_max_right _ _) hy
  have ha : toStr b ++ toStr x = toStr c ++ toStr y := by
    simpa [toStr] using congrArg toStr h
  rw [ha, hg] at hf
  simp only [Except.ok.injEq, Prod.mk.injEq] at hf
  exact ⟨(Fields.canonical_injective hf.left).symm, (toStr_injective hf.right).symm⟩

theorem stops_nil : Stops (toStr []) :=
  fun _ h => nomatch h

theorem stops_newline : Stops (toStr (newline ++ x)) :=
  Json.stops_cons (by decide)

variable {init init' resp resp' : Fields} {t t' m m' : Bytes} {s s' : Str}

theorem computeResponderTranscript_eq (h : computeResponderTranscript P init resp = some t) :
    ∃ b c, canonicalJsonBytes P init.toDict = some b ∧ canonicalJsonBytes P resp.toDict = some c ∧
      t = responderDomain ++ (b ++ (newline ++ c)) := by
  simp only [computeResponderTranscript, Option.pure_def, Option.bind_eq_bind,
    Option.bind_eq_some_iff, Option.some.injEq] at h
  obtain ⟨b, hb, c, hc, rfl⟩ := h
  exact ⟨b, c, hb, hc, by simp only [List.append_assoc]⟩

theorem computeInitiatorTranscript_eq (h : computeInitiatorTranscript t s = some m) :
    ∃ b, s.encodeAscii = some b ∧ m = initiatorDomain ++ (t ++ (newline ++ b)) := by
  simp only [computeInitiatorTranscript, Option.pure_def, Option.bind_eq_bind,
    Option.bind_eq_some_iff, Option.some.injEq] at h
  obtain ⟨b, hb, rfl⟩ := h
  exact ⟨b, hb, by simp only [List.append_assoc]⟩

theorem computeResponderTranscript_inj (h : computeResponderTranscript P init resp = some t)
    (h' : computeResponderTranscript P init' resp' = some t) : init = init' ∧ resp = resp' := by
  obtain ⟨b, c, hb, hc, rfl⟩ := computeResponderTranscript_eq h
  obtain ⟨b', c', hb', hc', ht⟩ := computeResponderTranscript_eq h'
  have ht := List.append_cancel_left ht
  have ⟨hi, ht⟩ := canonicalJsonBytes_append hb hb' ht stops_newline stops_newline
  have hr : c ++ [] = c' ++ [] := by simpa using List.append_cancel_left ht
  exact ⟨hi, (canonicalJsonBytes_append hc hc' hr stops_nil stops_nil).left⟩

theorem computeInitiatorTranscript_inj (ht : computeResponderTranscript P init resp = some t)
    (ht' : computeResponderTranscript P init' resp' = some t')
    (h : computeInitiatorTranscript t s = some m) (h' : computeInitiatorTranscript t' s' = some m) :
    init = init' ∧ resp = resp' ∧ s = s' := by
  obtain ⟨b, c, hb, hc, rfl⟩ := computeResponderTranscript_eq ht
  obtain ⟨b', c', hb', hc', rfl⟩ := computeResponderTranscript_eq ht'
  obtain ⟨d, hd, rfl⟩ := computeInitiatorTranscript_eq h
  obtain ⟨d', hd', hm⟩ := computeInitiatorTranscript_eq h'
  simp only [List.append_assoc] at hm
  have hm := List.append_cancel_left <| List.append_cancel_left hm
  have ⟨hi, hm⟩ := canonicalJsonBytes_append hb hb' hm stops_newline stops_newline
  have hm := List.append_cancel_left hm
  have ⟨hr, hm⟩ := canonicalJsonBytes_append hc hc' hm stops_newline stops_newline
  cases List.append_cancel_left hm
  exact ⟨hi, hr, Str.encodeAscii_inj hd hd'⟩

-- The three kinds of messages that a device signs differ in their first bytes.

theorem responder_ne_initiator (h : computeResponderTranscript P init resp = some m)
    (h' : computeInitiatorTranscript t s = some m) : False := by
  obtain ⟨b, c, -, -, rfl⟩ := computeResponderTranscript_eq h
  obtain ⟨d, -, hm⟩ := computeInitiatorTranscript_eq h'
  have hl : responderDomain.length = initiatorDomain.length := by decide
  exact absurd (List.append_inj hm hl).left (by decide)

theorem rotation_eq {oldId newId oldKey newKey : Str} {ts : Double}
    (h : TransitionCertificate.buildPayload oldId newId oldKey newKey ts = some m) :
    ∃ x, m = TransitionCertificate.rotationDomain ++ x := by
  simp only [TransitionCertificate.buildPayload, Option.pure_def, Option.bind_eq_bind,
    Option.bind_eq_some_iff, Option.some.injEq] at h
  obtain ⟨a, -, b, -, c, -, d, -, rfl⟩ := h
  simp only [List.append_assoc]
  exact ⟨_, rfl⟩

theorem take_domain {d : Bytes} (x : Bytes) (h : 19 ≤ d.length) : (d ++ x).take 19 = d.take 19 :=
  List.take_append_of_le_length h

theorem responder_ne_rotation {oldId newId oldKey newKey : Str} {ts : Double}
    (h : computeResponderTranscript P init resp = some m)
    (h' : TransitionCertificate.buildPayload oldId newId oldKey newKey ts = some m) : False := by
  obtain ⟨b, c, -, -, rfl⟩ := computeResponderTranscript_eq h
  obtain ⟨x, hm⟩ := rotation_eq h'
  have ht := congrArg (List.take 19) hm
  rw [take_domain _ (by decide), take_domain _ (by decide)] at ht
  exact absurd ht (by decide)

theorem initiator_ne_rotation {oldId newId oldKey newKey : Str} {ts : Double}
    (h : computeInitiatorTranscript t s = some m)
    (h' : TransitionCertificate.buildPayload oldId newId oldKey newKey ts = some m) : False := by
  obtain ⟨b, -, rfl⟩ := computeInitiatorTranscript_eq h
  obtain ⟨x, hm⟩ := rotation_eq h'
  have ht := congrArg (List.take 19) hm
  rw [take_domain _ (by decide), take_domain _ (by decide)] at ht
  exact absurd ht (by decide)

end Handshake
