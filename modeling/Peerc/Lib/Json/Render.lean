import Peerc.Lib.Json.Tokens

-- A text that denotes a value is read as the value, in front of any text that does not continue a number.

namespace Json

variable {F : FloatFormat} {style : Style} {s w : Str}

theorem skipWs_of_not_isWs {c : CodePoint} (h : isWs c = false) : skipWs (c :: s) = c :: s := by
  simp [skipWs, h]

-- No literal starts with a number, since neither of its first two characters is a digit.
theorem literals_head : ∀ w ∈ literals.map (·.fst),
    (w.take 2).length = 2 ∧ (w.take 2).all (!isDigit ·) := by
  decide

theorem scanAtom_number {c : CodePoint} (hc : isDigit c) (negative : Bool) (s : Str) :
    scanAtom F (numberSign negative ++ c :: s) = scanNumber F (numberSign negative ++ c :: s) := by
  have hn : literals.find? (·.fst.isPrefixOf (numberSign negative ++ c :: s)) = none := by
    rw [List.find?_eq_none]
    intro ⟨w, v⟩ hw hp
    have ⟨hl, hd⟩ := literals_head w (List.mem_map_of_mem hw)
    match w with
    | [] | [_] => simp at hl
    | x :: y :: w =>
      cases negative <;> simp [numberSign, List.isPrefixOf] at hp hd
      · simp [hp.left, hc] at hd
      · simp [hp.right.left, hc] at hd
  simp only [scanAtom, hn]

-- The iterations that the scanner needs for a value

mutual

def cost : Json → Nat
  | arr items  => costItems items + 1
  | obj fields => costFields fields + 1
  | _          => 1

def costItems : List Json → Nat
  | []      => 0
  | v :: vs => max v.cost (costItems vs) + 1

def costFields : List (Text × Json) → Nat
  | []            => 0
  | (_, v) :: kvs => max v.cost (costFields kvs) + 1

end

-- How the text of a value can start
def StartsValue (t : Str) : Prop :=
  ∃ c tl, t = c :: tl ∧ isWs c = false ∧ c ≠ 0x5D ∧ c ≠ 0xFEFF

theorem startsValue_number (negative : Bool) (n : Nat) (s : Str) :
    StartsValue (numberSign negative ++ decimal n ++ s) := by
  have ⟨c, ds, hd, hc⟩ := decimal_cons n
  cases negative
  case true => exact ⟨0x2D, _, rfl, rfl, by decide, by decide⟩
  case false =>
    have hne {d : CodePoint} (hd : ¬isDigit d) : c ≠ d := ne_of_isDigit hc hd
    refine ⟨c, ds ++ s, by simp [numberSign, hd], ?_, hne (by decide), hne (by decide)⟩
    simp only [isWs, Bool.or_eq_false_iff, beq_eq_false_iff_ne]
    exact ⟨⟨⟨hne (by decide), hne (by decide)⟩, hne (by decide)⟩, hne (by decide)⟩

theorem dumpsInt_eq {n : Int} {t : Str} (h : dumpsInt n = some t) :
    t = numberSign (n < 0) ++ decimal n.natAbs := by
  simp only [dumpsInt, Option.ite_none_right_eq_some, Option.some.injEq] at h
  rw [← h.right, numberSign]
  by_cases hn : n < 0 <;> simp [hn]

theorem render_eq (t : FloatToken) :
    t.render = numberSign t.negative ++ decimal t.whole ++ (fractionText t ++ exponentText t) := by
  rw [← List.append_assoc]
  rfl

theorem startsValue_dumps {v : Json} {t : Str} (h : dumps F style v = some t) : StartsValue t := by
  cases v
  case null =>
    cases h
    exact ⟨0x6E, _, rfl, rfl, by decide, by decide⟩
  case bool b =>
    cases b <;> cases h
    · exact ⟨0x66, _, rfl, rfl, by decide, by decide⟩
    · exact ⟨0x74, _, rfl, rfl, by decide, by decide⟩
  case int n =>
    rw [dumps] at h
    rw [dumpsInt_eq h, ← List.append_nil (_ ++ _)]
    exact startsValue_number _ _ _
  case float x =>
    simp only [dumps, Option.some.injEq, dumpsFloat] at h
    split at h
    case isTrue => exact h ▸ ⟨0x4E, _, rfl, rfl, by decide, by decide⟩
    split at h
    case isTrue => exact h ▸ render_eq _ ▸ startsValue_number _ _ _
    split at h
    case isTrue => exact h ▸ ⟨0x2D, _, rfl, rfl, by decide, by decide⟩
    case isFalse => exact h ▸ ⟨0x49, _, rfl, rfl, by decide, by decide⟩
  case str x =>
    simp only [dumps, Option.some.injEq, escape] at h
    exact h ▸ ⟨0x22, _, rfl, rfl, by decide, by decide⟩
  case arr items =>
    simp only [dumps, Option.pure_def, Option.bind_eq_bind, Option.bind_eq_some_iff,
      Option.some.injEq] at h
    obtain ⟨_, -, rfl⟩ := h
    exact ⟨0x5B, _, rfl, rfl, by decide, by decide⟩
  case obj fields =>
    simp only [dumps, Option.pure_def, Option.bind_eq_bind, Option.bind_eq_some_iff,
      Option.some.injEq] at h
    obtain ⟨_, -, rfl⟩ := h
    exact ⟨0x7B, _, rfl, rfl, by decide, by decide⟩

theorem setItem_of_not_mem {key : Text} {v : Json} {acc : List (Text × Json)}
    (h : key ∉ acc.map (·.fst)) : setItem key v acc = acc ++ [(key, v)] := by
  induction acc
  case nil => rfl
  case cons kv acc hi =>
    simp only [List.map_cons, List.mem_cons, not_or] at h
    simp only [setItem, if_neg (Ne.symm h.left), hi h.right, List.cons_append]

theorem stops_cons {c : CodePoint} (h : ¬isDigit c ∧ c ≠ 0x2E ∧ c ≠ 0x65 ∧ c ≠ 0x45) :
    Stops (c :: s) := by
  intro d hd
  cases hd
  exact h

theorem scanOnce_number (fuel : Nat) (negative : Bool) (n : Nat) (s : Str) :
    scanOnce F (fuel + 1) (numberSign negative ++ decimal n ++ s) =
      scanNumber F (numberSign negative ++ decimal n ++ s) := by
  have ⟨c, ds, hd, hc⟩ := decimal_cons n
  have ha := scanAtom_number (F := F) hc negative (ds ++ s)
  have hq : c ≠ 0x22 := ne_of_isDigit hc (by decide)
  have ho : c ≠ 0x7B := ne_of_isDigit hc (by decide)
  have hb : c ≠ 0x5B := ne_of_isDigit hc (by decide)
  rw [hd, List.append_assoc, List.cons_append, ← ha]
  cases negative
  case true => rfl
  case false =>
    simp only [numberSign, Bool.false_eq_true, if_false, List.nil_append, scanOnce, if_neg hq,
      if_neg ho, if_neg hb]

-- The bits of a number are those of its sign, its exponent and its mantissa.
theorem eq_infinity {x : Double} (hn : ¬x.isNaN) (hf : ¬x.isFinite) :
    x = if x.negative then .negInfinity else .infinity := by
  have hlt := x.bits.toNat_lt
  simp only [Double.isNaN, Double.isFinite, decide_eq_true_eq, not_not, not_and, ne_eq] at hn hf
  have hm := hn hf
  simp only [Double.exponent, Double.mantissa] at hf hm
  suffices h : x.bits.toNat = (if x.negative then Double.negInfinity else .infinity).bits.toNat by
    have := UInt64.toNat_inj.mp h
    generalize (if x.negative then Double.negInfinity else .infinity) = y at this ⊢
    cases x; cases y
    simp_all
  simp only [Double.negative, decide_eq_true_eq]
  split
  case isTrue h =>
    have : Double.negInfinity.bits.toNat = 0xFFF0000000000000 := rfl
    omega
  case isFalse h =>
    have : Double.infinity.bits.toNat = 0x7FF0000000000000 := rfl
    omega

theorem scanOnce_float {x : Double} (hx : x.isNaN → x = .nan) (fuel : Nat) (hs : Stops s) :
    scanOnce F (fuel + 1) (dumpsFloat F x ++ s) = .ok (.float x, s) := by
  rw [dumpsFloat]
  by_cases hnan : x.isNaN
  · rw [if_pos hnan, hx hnan]
    rfl
  rw [if_neg hnan]
  by_cases hf : x.isFinite
  case pos =>
    have hr := scanNumber_render (F := F) (F.repr x) hs
    rw [F.parse_repr x hf] at hr
    rw [if_pos hf, ← hr, render_eq, List.append_assoc, scanOnce_number]
  case neg =>
    have he := eq_infinity hnan hf
    rw [if_neg hf]
    by_cases hn : x.negative
    · rw [if_pos hn] at he ⊢
      rw [he]
      rfl
    · rw [if_neg hn] at he ⊢
      rw [he]
      rfl

-- Whitespace

def IsBlank (w : Str) : Prop :=
  ∀ c ∈ w, isWs c

theorem isBlank_nil : IsBlank [] :=
  List.forall_mem_nil _

theorem skipWs_blank (hw : IsBlank w) : skipWs (w ++ s) = skipWs s :=
  List.dropWhile_append_of_pos hw

theorem skipWs_value {t : Str} (hw : IsBlank w) (ht : StartsValue t) : skipWs (w ++ (t ++ s)) = t ++ s := by
  obtain ⟨c, tl, rfl, hc, -⟩ := ht
  rw [skipWs_blank hw]
  exact skipWs_of_not_isWs hc

theorem skipWs_delimiter {c : CodePoint} (hw : IsBlank w) (hc : isWs c = false) :
    skipWs (w ++ c :: s) = c :: s := by
  rw [skipWs_blank hw, skipWs_of_not_isWs hc]

theorem stops_blank (hw : IsBlank w) (hs : Stops s) : Stops (w ++ s) := by
  cases w
  case nil => exact hs
  case cons c w =>
    have hc := hw c List.mem_cons_self
    simp only [isWs, Bool.or_eq_true, beq_iff_eq] at hc
    rcases hc with ((rfl | rfl) | rfl) | rfl <;> exact stops_cons (by decide)

mutual

-- The texts of a value: whitespace may stand around the values in lists and objects, and around their keys.
def Renders (F : FloatFormat) : Json → Str → Prop
  | arr items,  t => ∃ ts, RendersItems F items ts ∧ t = 0x5B :: ts ++ [0x5D]
  | obj fields, t => ∃ ts, RendersFields F fields ts ∧ t = 0x7B :: ts ++ [0x7D]
  | v,          t => dumps F .default v = some t

def RendersItems (F : FloatFormat) : List Json → Str → Prop
  | [],      ts => IsBlank ts
  | v :: vs, ts => ∃ w t w' tl, IsBlank w ∧ Renders F v t ∧ IsBlank w' ∧ ts = w ++ (t ++ (w' ++ tl)) ∧
      (vs = [] ∧ tl = [] ∨ ∃ ts', vs ≠ [] ∧ RendersItems F vs ts' ∧ tl = 0x2C :: ts')

def RendersFields (F : FloatFormat) : List (Text × Json) → Str → Prop
  | [],            ts => IsBlank ts
  | (k, v) :: kvs, ts => ∃ w u t w' tl, IsBlank w ∧ IsBlank u ∧ Renders F v t ∧ IsBlank w' ∧
      ts = w ++ (escape k.val ++ 0x3A :: (u ++ (t ++ (w' ++ tl)))) ∧
      (kvs = [] ∧ tl = [] ∨ ∃ ts', kvs ≠ [] ∧ RendersFields F kvs ts' ∧ tl = 0x2C :: ts')

end

theorem isBlank_append {w' : Str} (h : IsBlank w) (h' : IsBlank w') : IsBlank (w ++ w') :=
  List.forall_mem_append.mpr ⟨h, h'⟩

theorem rendersItems_blank {vs : List Json} {t : Str} (hw : IsBlank w) (h : RendersItems F vs t) :
    RendersItems F vs (w ++ t) := by
  cases vs
  case nil => exact isBlank_append hw h
  case cons v vs =>
    obtain ⟨u, t, u', tl, hu, ht, hu', rfl, htl⟩ := h
    exact ⟨w ++ u, t, u', tl, isBlank_append hw hu, ht, hu', (List.append_assoc ..).symm, htl⟩

theorem rendersFields_blank {kvs : List (Text × Json)} {t : Str} (hw : IsBlank w)
    (h : RendersFields F kvs t) : RendersFields F kvs (w ++ t) := by
  cases kvs
  case nil => exact isBlank_append hw h
  case cons kv kvs =>
    obtain ⟨u, u', t, u'', tl, hu, hu', ht, hu'', rfl, htl⟩ := h
    exact ⟨w ++ u, u', t, u'', tl, isBlank_append hw hu, hu', ht, hu'', (List.append_assoc ..).symm, htl⟩

theorem startsValue_renders {v : Json} {t : Str} (h : Renders F v t) : StartsValue t := by
  cases v
  case arr =>
    have ⟨_, _, ht⟩ := h
    exact ht ▸ ⟨0x5B, _, rfl, rfl, by decide, by decide⟩
  case obj =>
    have ⟨_, _, ht⟩ := h
    exact ht ▸ ⟨0x7B, _, rfl, rfl, by decide, by decide⟩
  all_goals exact startsValue_dumps h

-- With this much fuel, each scanner reads back what the text denotes.

def ScansValues (F : FloatFormat) (fuel : Nat) : Prop :=
  ∀ {v t s}, v.WellFormed → Renders F v t → v.cost ≤ fuel → Stops s →
    scanOnce F fuel (t ++ s) = .ok (v, s)

def ScansItems (F : FloatFormat) (fuel : Nat) : Prop :=
  ∀ {v vs a t s}, WellFormedItems (v :: vs) → RendersItems F (v :: vs) t →
    costItems (v :: vs) ≤ fuel →
    scanItems F fuel a (skipWs (t ++ 0x5D :: s)) = .ok (.arr (a ++ v :: vs), s)

def ScansFields (F : FloatFormat) (fuel : Nat) : Prop :=
  ∀ {kv kvs a t s}, WellFormedFields (kv :: kvs) → RendersFields F (kv :: kvs) t →
    ((a ++ kv :: kvs).map (·.fst)).Nodup → costFields (kv :: kvs) ≤ fuel →
    scanFields F fuel a (skipWs (t ++ 0x7D :: s)) = .ok (.obj (a ++ kv :: kvs), s)

variable {fuel : Nat}

theorem scansValues_succ (hvs : ScansItems F fuel) (hkvs : ScansFields F fuel) :
    ScansValues F (fuel + 1) := by
  intro v t s hw hd hc hs
  cases v
  case null =>
    cases hd
    rfl
  case bool b => cases b <;> cases hd <;> rfl
  case int n =>
    have hd : dumpsInt n = some t := hd
    rw [← scanNumber_dumpsInt hd hs, dumpsInt_eq hd, scanOnce_number]
  case float x =>
    cases hd
    exact scanOnce_float hw fuel hs
  case str x =>
    cases hd
    have := scanString_escape x s
    simp only [escape, List.cons_append, List.append_assoc, List.nil_append, scanOnce, if_true, this]
    rfl
  case arr items =>
    obtain ⟨ts, hd, rfl⟩ := hd
    have hq : (0x5B : CodePoint) ≠ 0x22 ∧ (0x5B : CodePoint) ≠ 0x7B := by decide
    simp only [List.cons_append, List.append_assoc, List.nil_append, scanOnce, if_neg hq.left,
      if_neg hq.right, if_true]
    cases items
    case nil => rw [skipWs_delimiter hd rfl]; rfl
    case cons v vs =>
      have hi := hvs (a := []) (s := s) hw hd (by simpa [cost] using hc)
      obtain ⟨u, t, w', tl, hu, ht, -, rfl, -⟩ := hd
      have hstart := startsValue_renders ht
      simp only [List.append_assoc, skipWs_value hu hstart] at hi ⊢
      obtain ⟨c, tl, rfl, -, hne, -⟩ := hstart
      simp only [List.cons_append, if_neg hne] at hi ⊢
      exact hi
  case obj fields =>
    obtain ⟨ts, hd, rfl⟩ := hd
    have hq : (0x7B : CodePoint) ≠ 0x22 ∧ (0x22 : CodePoint) ≠ 0x7D := by decide
    simp only [List.cons_append, List.append_assoc, List.nil_append, scanOnce, if_neg hq.left, if_true]
    cases fields
    case nil => rw [skipWs_delimiter hd rfl]; rfl
    case cons kv kvs =>
      have hi := hkvs (a := []) (s := s) hw.right hd hw.left (by simpa [cost] using hc)
      obtain ⟨w', u, t, u', tl, hw', -, -, -, rfl, -⟩ := hd
      simp only [escape, List.append_assoc, List.cons_append, skipWs_delimiter hw' (rfl : isWs 0x22 = false),
        if_neg hq.right] at hi ⊢
      exact hi

theorem scansItems_succ (hv : ScansValues F fuel) (hvs : ScansItems F fuel) :
    ScansItems F (fuel + 1) := by
  intro v vs acc t s hw hd hc
  simp only [costItems, Nat.add_le_add_iff_right, Nat.max_le] at hc
  obtain ⟨u, t, u', tl, hu, ht, hu', rfl, htl⟩ := hd
  rw [List.append_assoc, List.append_assoc, skipWs_value hu (startsValue_renders ht), scanItems]
  rcases htl with ⟨rfl, rfl⟩ | ⟨ts, hne, hts, rfl⟩
  · have hi := hv (s := u' ++ 0x5D :: s) hw.left ht hc.left (stops_blank hu' (stops_cons (by decide)))
    simp only [List.append_nil, hi, bind, Except.bind, skipWs_delimiter hu' (rfl : isWs 0x5D = false), if_true]
  · have hi := hv (s := u' ++ 0x2C :: (ts ++ 0x5D :: s)) hw.left ht hc.left
      (stops_blank hu' (stops_cons (by decide)))
    obtain ⟨v', vs, rfl⟩ := List.exists_cons_of_ne_nil hne
    have hi' := hvs (a := acc ++ [v]) (s := s) hw.right hts hc.right
    have hq : (0x2C : CodePoint) ≠ 0x5D := by decide
    simp only [List.append_assoc, List.cons_append, List.nil_append] at hi hi' ⊢
    simp only [hi, bind, Except.bind, skipWs_delimiter hu' (rfl : isWs 0x2C = false), if_neg hq, if_true, hi']

theorem scansFields_succ (hv : ScansValues F fuel) (hkvs : ScansFields F fuel) :
    ScansFields F (fuel + 1) := by
  intro ⟨k, v⟩ kvs acc t s hw hd hn hc
  simp only [costFields, Nat.add_le_add_iff_right, Nat.max_le] at hc
  have hk : k ∉ acc.map (·.fst) := by
    intro h
    rw [List.map_append, List.map_cons] at hn
    exact (List.nodup_append.mp hn).right.right k h k List.mem_cons_self rfl
  have hset := setItem_of_not_mem (v := v) hk
  obtain ⟨u, u', t, u'', tl, hu, hu', ht, hu'', rfl, htl⟩ := hd
  have hstr := scanString_escape k (0x3A :: (u' ++ (t ++ (u'' ++ (tl ++ 0x7D :: s)))))
  simp only [escape, List.append_assoc, List.cons_append, List.nil_append] at hstr ⊢
  simp only [skipWs_delimiter hu (rfl : isWs 0x22 = false), scanFields, ne_eq, not_true_eq_false, if_false,
    hstr, bind, Except.bind, skipWs_of_not_isWs (rfl : isWs 0x3A = false),
    skipWs_value hu' (startsValue_renders ht)]
  rcases htl with ⟨rfl, rfl⟩ | ⟨ts, hne, hts, rfl⟩
  · have hi := hv (s := u'' ++ 0x7D :: s) hw.left ht hc.left (stops_blank hu'' (stops_cons (by decide)))
    simp only [List.nil_append, hi, skipWs_delimiter hu'' (rfl : isWs 0x7D = false), if_true, hset]
  · have hi := hv (s := u'' ++ 0x2C :: (ts ++ 0x7D :: s)) hw.left ht hc.left
      (stops_blank hu'' (stops_cons (by decide)))
    obtain ⟨kv, kvs, rfl⟩ := List.exists_cons_of_ne_nil hne
    have hi' := hkvs (a := acc ++ [(k, v)]) (s := s) hw.right hts (by simpa using hn) hc.right
    have hq : (0x2C : CodePoint) ≠ 0x7D := by decide
    simp only [List.append_assoc, List.cons_append, List.nil_append] at hi hi' ⊢
    simp only [hi, skipWs_delimiter hu'' (rfl : isWs 0x2C = false), if_neg hq, if_true, hset, hi']

theorem scans (F : FloatFormat) (fuel : Nat) :
    ScansValues F fuel ∧ ScansItems F fuel ∧ ScansFields F fuel := by
  induction fuel
  case zero =>
    refine ⟨fun {v _ _} _ _ hc => ?_, fun {_ _ _ _ _} _ _ hc => ?_, fun {_ _ _ _ _} _ _ _ hc => ?_⟩
    · cases v <;> simp [cost] at hc
    · simp [costItems] at hc
    · simp [costFields] at hc
  case succ fuel hi =>
    obtain ⟨hv, hvs, hkvs⟩ := hi
    exact ⟨scansValues_succ hvs hkvs, scansItems_succ hv hvs, scansFields_succ hv hkvs⟩

-- The text of a value is long enough to provide the fuel that reading it takes.

mutual

theorem cost_le : (v : Json) → (t : Str) → Renders F v t → v.cost ≤ t.length
  | arr items, t, h => by
    obtain ⟨ts, h, rfl⟩ := h
    have := costItems_le items ts h
    simp only [cost, List.length_append, List.length_cons, List.length_nil]
    omega
  | obj fields, t, h => by
    obtain ⟨ts, h, rfl⟩ := h
    have := costFields_le fields ts h
    simp only [cost, List.length_append, List.length_cons, List.length_nil]
    omega
  | null, t, h | bool _, t, h | int _, t, h | float _, t, h | str _, t, h => by
    obtain ⟨c, tl, rfl, -⟩ := startsValue_renders h
    simp [cost]

theorem costItems_le : (vs : List Json) → (t : Str) → RendersItems F vs t → costItems vs ≤ t.length + 1
  | [], _, _ => by simp [costItems]
  | v :: vs, t, h => by
    obtain ⟨_, t, _, tl, -, hv, -, rfl, htl⟩ := h
    have := cost_le v t hv
    simp only [costItems, List.length_append]
    rcases htl with ⟨rfl, rfl⟩ | ⟨ts, -, hvs, rfl⟩
    · simp only [costItems]
      omega
    · have := costItems_le vs ts hvs
      simp only [List.length_cons]
      omega

theorem costFields_le : (kvs : List (Text × Json)) → (t : Str) → RendersFields F kvs t →
    costFields kvs ≤ t.length + 1
  | [], _, _ => by simp [costFields]
  | (k, v) :: kvs, t, h => by
    obtain ⟨_, _, t, _, tl, -, -, hv, -, rfl, htl⟩ := h
    have := cost_le v t hv
    simp only [costFields, List.length_append, List.length_cons]
    rcases htl with ⟨rfl, rfl⟩ | ⟨ts, -, hkvs, rfl⟩
    · simp only [costFields]
      omega
    · have := costFields_le kvs ts hkvs
      simp only [List.length_cons]
      omega

end

theorem loads_renders {v : Json} {t : Str} (hw : v.WellFormed) (h : Renders F v t) : loads F t = .ok v := by
  obtain ⟨c, tl, rfl, hc, -, hb⟩ := startsValue_renders h
  have hs := (scans F ((c :: tl).length + 1)).left (s := []) hw h
    (Nat.le_succ_of_le (cost_le v _ h)) (fun _ h => nomatch h)
  rw [List.append_nil] at hs
  have hb : (c :: tl).head? ≠ some 0xFEFF := fun h => hb (Option.some.inj h)
  simp only [loads, if_neg hb, skipWs_of_not_isWs hc, hs]
  rfl

end Json
