import Peerc.Lib.Json.RoundTrip

-- Bounds on the length of the text of a value

namespace Json

variable {F : FloatFormat} {style : Style} {s : Text} {t : Str}

theorem escapeChar_length (c : CodePoint) :
    1 ≤ (escapeChar c).length ∧ (escapeChar c).length ≤ 12 := by
  simp only [escapeChar]
  iterate 9
    split
    case isTrue => simp [escapeUnit]
  case isFalse => simp [escapeUnit]

theorem length_le_escape (s : Str) : s.length ≤ (escape s).length := by
  induction s
  case nil => exact Nat.zero_le _
  case cons c s hi =>
    have hc := (escapeChar_length c).left
    simp only [escape, List.flatMap_cons, List.length_cons, List.length_append, List.length_nil] at hi ⊢
    omega

theorem escape_length_le (s : Str) : (escape s).length ≤ 12 * s.length + 2 := by
  induction s
  case nil => exact Nat.le_refl _
  case cons c s hi =>
    have hc := (escapeChar_length c).right
    simp only [escape, List.flatMap_cons, List.length_cons, List.length_append, List.length_nil] at hi ⊢
    omega

-- The text of an object is at least as long as each string in it.
theorem length_le_dumpsFields {k : Text} {kvs : List (Text × Json)} (hk : (k, str s) ∈ kvs)
    (h : dumpsFields F style kvs = some t) : s.val.length ≤ t.length := by
  induction kvs generalizing t
  case nil => cases hk
  case cons kv kvs hi =>
    obtain ⟨k', v⟩ := kv
    obtain ⟨tv, hv, ht⟩ := dumpsFields_cons h
    rcases List.mem_cons.mp hk with he | hk
    case inl =>
      cases he
      cases hv
      have := length_le_escape s.val
      rcases ht with ⟨-, rfl⟩ | ⟨_, _, _, -, -, rfl⟩ <;> simp only [List.length_append] <;> omega
    case inr =>
      rcases ht with ⟨rfl, -⟩ | ⟨_, _, tvs, -, hvs, rfl⟩
      · cases hk
      · have := hi hk hvs
        simp only [List.length_append]
        omega

theorem length_le_dumps {k : Text} {kvs : List (Text × Json)} (hk : (k, str s) ∈ kvs)
    (h : dumps F style (obj kvs) = some t) : s.val.length ≤ t.length := by
  simp only [dumps, Option.pure_def, Option.bind_eq_bind, Option.bind_eq_some_iff, Option.some.injEq] at h
  obtain ⟨tf, hf, rfl⟩ := h
  have := length_le_dumpsFields hk hf
  simp only [List.length_append, List.length_cons]
  omega

-- An object has a text if each of its values has one.
theorem dumps_obj_isSome {kvs : List (Text × Json)} :
    (dumps F style (obj kvs)).isSome ↔ ∀ kv ∈ kvs, (dumps F style kv.snd).isSome := by
  have hf : (dumpsFields F style kvs).isSome ↔ ∀ kv ∈ kvs, (dumps F style kv.snd).isSome := by
    induction kvs
    case nil => exact iff_of_true rfl (List.forall_mem_nil _)
    case cons kv kvs hi =>
      obtain ⟨k, v⟩ := kv
      rw [List.forall_mem_cons, ← hi]
      cases kvs
      case nil => cases hv : dumps F style v <;> simp [dumpsFields, hv]
      case cons kv kvs =>
        cases hv : dumps F style v <;> cases ht : dumpsFields F style (kv :: kvs) <;>
          simp [dumpsFields, hv, ht]
  rw [← hf, dumps]
  cases dumpsFields F style kvs <;> rfl

-- The text of an object is bounded by its number of fields if the text of each field is.
theorem dumpsFields_length_le {n : Nat} {kvs : List (Text × Json)}
    (h : ∀ kv ∈ kvs, ∃ tv, dumps F style kv.snd = some tv ∧ 12 * kv.fst.val.length + tv.length ≤ n) :
    ∃ t, dumpsFields F style kvs = some t ∧ t.length ≤ (n + 6) * kvs.length := by
  have hkey : style.key.length ≤ 2 := by cases style <;> decide
  have hitem : style.item.length ≤ 2 := by cases style <;> decide
  induction kvs
  case nil => exact ⟨[], rfl, Nat.zero_le _⟩
  case cons kv kvs hi =>
    obtain ⟨k, v⟩ := kv
    obtain ⟨tv, hv, hn⟩ : ∃ tv, dumps F style v = some tv ∧ 12 * k.val.length + tv.length ≤ n :=
      h (k, v) List.mem_cons_self
    obtain ⟨t, ht, hl⟩ := hi fun kv hkv => h kv (List.mem_cons_of_mem _ hkv)
    have hk := escape_length_le k.val
    rw [List.length_cons, Nat.mul_succ]
    cases kvs
    case nil =>
      refine ⟨escape k.val ++ style.key ++ tv, by simp [dumpsFields, hv], ?_⟩
      simp only [List.length_append]
      omega
    case cons kv' kvs =>
      refine ⟨escape k.val ++ style.key ++ tv ++ style.item ++ t, by simp [dumpsFields, hv, ht], ?_⟩
      simp only [List.length_append]
      omega

theorem dumps_obj_length_le {n : Nat} {kvs : List (Text × Json)}
    (h : ∀ kv ∈ kvs, ∃ tv, dumps F style kv.snd = some tv ∧ 12 * kv.fst.val.length + tv.length ≤ n) :
    ∃ t, dumps F style (obj kvs) = some t ∧ t.length ≤ (n + 6) * kvs.length + 2 := by
  obtain ⟨t, ht, hl⟩ := dumpsFields_length_le h
  refine ⟨0x7B :: t ++ [0x7D], by simp [dumps, ht], ?_⟩
  simp only [List.length_append, List.length_cons, List.length_nil]
  omega

-- The two kinds of fields that most messages consist of

theorem str_field_length_le {k v : Text} {n : Nat} (hk : k.val.length ≤ 20)
    (hv : 12 * v.val.length + 242 ≤ n) :
    ∃ tv, dumps F style (str v) = some tv ∧ 12 * k.val.length + tv.length ≤ n := by
  have he := escape_length_le v.val
  exact ⟨_, rfl, by omega⟩

theorem decimal_length_le {n k : Nat} (hk : 0 < k) (h : n < 10 ^ k) : (decimal n).length ≤ k := by
  simp only [decimal]
  split
  case isTrue => exact hk
  case isFalse =>
    rw [List.length_map, List.length_reverse]
    exact (Nat.digits_length_le_iff (by decide) n).mpr h

theorem nat_field_length_le {k : Text} {m n : Nat} (hk : k.val.length ≤ 20) (hm : m < 10 ^ 20) (hn : 260 ≤ n) :
    ∃ tv, dumps F style (int m) = some tv ∧ 12 * k.val.length + tv.length ≤ n := by
  have hd : (decimal m).length ≤ 20 := decimal_length_le (by decide) hm
  have hs : (decimal m).length ≤ maxStrDigits := hd.trans (by decide)
  refine ⟨decimal m, ?_, by omega⟩
  simp only [dumps, dumpsInt, Int.natAbs_natCast, if_pos hs, if_neg (Int.natCast_nonneg m).not_gt]

theorem dumpsFloat_length_le {n : Nat} (h : ∀ x, (F.repr x).render.length ≤ n) (hn : 9 ≤ n)
    (x : Double) : (dumpsFloat F x).length ≤ n := by
  have hnan : (Str.ofString "NaN").length = 3 := by decide
  have hneg : (Str.ofString "-Infinity").length = 9 := by decide
  have hpos : (Str.ofString "Infinity").length = 8 := by decide
  simp only [dumpsFloat]
  split
  case isTrue => omega
  split
  case isTrue => exact h x
  split <;> omega

theorem float_field_length_le {k : Text} {x : Double} {n : Nat} (hk : k.val.length ≤ 20)
    (h : ∀ x, (F.repr x).render.length ≤ 24) (hn : 264 ≤ n) :
    ∃ tv, dumps F style (float x) = some tv ∧ 12 * k.val.length + tv.length ≤ n := by
  have he := dumpsFloat_length_le h (by decide) x
  exact ⟨_, rfl, by omega⟩

end Json

-- An ASCII text has as many bytes as characters.
theorem Str.encodeUtf8_length {s : Str} {b : Bytes} (ha : s.IsAscii) (h : s.encodeUtf8 = some b) :
    b.length = s.length := by
  simp only [encodeUtf8, if_pos ha.encodable, Option.some.injEq] at h
  subst h
  induction s
  case nil => rfl
  case cons c s hi =>
    obtain ⟨hc, ha⟩ := isAscii_cons.mp ha
    rw [List.flatMap_cons, List.length_append, hi ha, CodePoint.utf8, if_pos hc, List.length_singleton,
      List.length_cons, Nat.add_comm]
