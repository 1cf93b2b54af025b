import Mathlib.Data.List.TakeWhile
import Peerc.Lib.Refines
import Peerc.Lib.Json.Render

-- What the scanners read does not change when more text follows, so that a text that was cut off is not
-- read as a value.

namespace Json

variable {F : FloatFormat} {s x rest : Str}

theorem scanUnits_append {us : Str} (h : scanUnits s = some (us, rest)) :
    scanUnits (s ++ x) = some (us, rest ++ x) := by
  fun_induction scanUnits s generalizing us rest
  case case2 =>
    cases h
    rw [List.cons_append, scanUnits.eq_def]
    rfl
  case case3 h₁ h₂ h₃ h₄ s hq hi =>
    simp only [Option.bind_eq_bind, Option.bind_eq_some_iff] at h
    obtain ⟨d₁, hd₁, d₂, hd₂, d₃, hd₃, d₄, hd₄, ⟨us, rest⟩, hs, h⟩ := h
    cases h
    rw [List.cons_append, scanUnits.eq_def]
    simp only [List.cons_append, if_neg hq, if_true, hd₁, hd₂, hd₃, hd₄, hi hs]
    rfl
  case case5 e s he hq hi =>
    simp only [Option.bind_eq_bind, Option.bind_eq_some_iff] at h
    obtain ⟨u, hu, ⟨us, rest⟩, hs, h⟩ := h
    cases h
    rw [List.cons_append, scanUnits.eq_def]
    simp only [List.cons_append, if_neg hq, if_true, if_neg he, hu, hi hs]
    rfl
  case case8 c s hq hb hc hi =>
    simp only [Option.bind_eq_bind, Option.bind_eq_some_iff] at h
    obtain ⟨⟨us, rest⟩, hs, h⟩ := h
    cases h
    rw [List.cons_append, scanUnits.eq_def]
    simp only [if_neg hq, if_neg hb, if_neg hc, hi hs]
    rfl
  all_goals cases h

theorem scanString_append {k : Text} (h : scanString s = .ok (k, rest)) :
    scanString (s ++ x) = .ok (k, rest ++ x) := by
  unfold scanString at h ⊢
  split at h
  case h_2 => cases h
  case h_1 us rest' hu =>
    cases h
    rw [scanUnits_append hu]

-- Numbers

theorem dropWhile_append {p : CodePoint → Bool} (h : s.dropWhile p ≠ []) :
    (s ++ x).takeWhile p = s.takeWhile p ∧ (s ++ x).dropWhile p = s.dropWhile p ++ x := by
  induction s
  case nil => exact (h rfl).elim
  case cons c s hi =>
    cases hc : p c
    case false => simp [hc]
    case true =>
      simp only [List.dropWhile_cons, hc, if_true] at h
      simp [hc, hi h]

theorem span_append {p : CodePoint → Bool} {ds : Str} (h : s.span p = (ds, rest)) (hr : rest ≠ []) :
    (s ++ x).span p = (ds, rest ++ x) := by
  rw [List.span_eq_takeWhile_dropWhile] at h ⊢
  cases h
  have ⟨ht, hd⟩ := dropWhile_append (x := x) hr
  rw [ht, hd]

theorem scanWhole_append {ds : Str} (h : scanWhole s = some (ds, rest)) (hr : rest ≠ []) :
    scanWhole (s ++ x) = some (ds, rest ++ x) := by
  cases s
  case nil => cases h
  case cons c s =>
    simp only [scanWhole, List.cons_append] at h ⊢
    split at h
    case isTrue hc =>
      cases h
      rw [if_pos hc]
    case isFalse hc =>
      rw [if_neg hc]
      split at h
      case isTrue hd => rw [if_pos hd, ← List.cons_append, span_append (Option.some.inj h) hr]
      case isFalse => cases h

theorem scanFraction_append {ds : Str} (h : scanFraction s = (ds, rest)) (hr : rest ≠ [])
    (hd : rest.head? ≠ some 0x2E) : scanFraction (s ++ x) = (ds, rest ++ x) := by
  have plain {c : CodePoint} {t : Str} (hc : c ≠ 0x2E) : scanFraction (c :: t) = ([], c :: t) := by
    cases t <;> simp [scanFraction, hc]
  rcases s with _ | ⟨c, _ | ⟨d, t⟩⟩
  case nil => cases h; exact (hr rfl).elim
  case cons.nil =>
    cases h
    exact plain fun hc => hd (hc ▸ rfl)
  case cons.cons =>
    simp only [scanFraction, List.cons_append] at h ⊢
    split at h
    case isTrue hc =>
      cases h
      rw [if_pos hc, ← List.cons_append, span_append rfl hr]
      rfl
    case isFalse hc =>
      cases h
      rw [if_neg hc]
      rfl

theorem exponentDigits_append {c : CodePoint} {sign t t' ds : Str} (hc : c = 0x65 ∨ c = 0x45)
    (h : (match t'.span isDigit with
      | ([], _)    => ([], c :: t)
      | (ds, rest) => (c :: sign ++ ds, rest)) = (ds, rest)) (hr : rest ≠ [])
    (hd : ∀ c, rest.head? = some c → c ≠ 0x65 ∧ c ≠ 0x45) :
    (match (t' ++ x).span isDigit with
      | ([], _)    => ([], c :: (t ++ x))
      | (ds, rest) => (c :: sign ++ ds, rest)) = (ds, rest ++ x) := by
  cases hp : t'.span isDigit
  case mk ds' rest' =>
    rw [hp] at h
    cases ds' <;> cases h
    -- Without digits nothing is read.
    case nil => exact (hc.elim (hd c rfl).left (hd c rfl).right).elim
    case cons => rw [span_append hp hr]

theorem scanExponent_append {ds : Str} (h : scanExponent s = (ds, rest)) (hr : rest ≠ [])
    (hd : ∀ c, rest.head? = some c → c ≠ 0x65 ∧ c ≠ 0x45) : scanExponent (s ++ x) = (ds, rest ++ x) := by
  cases s
  case nil => cases h; exact (hr rfl).elim
  case cons c t =>
    simp only [scanExponent, List.cons_append] at h ⊢
    split at h
    case isFalse hc =>
      cases h
      rw [if_neg hc]
      rfl
    case isTrue hc =>
      rw [if_pos hc]
      cases t
      case nil => cases h; exact (hc.elim (hd c rfl).left (hd c rfl).right).elim
      case cons d tl =>
        simp only [List.cons_append] at h ⊢
        by_cases hs : d = 0x2B ∨ d = 0x2D
        case pos =>
          simp only [if_pos hs] at h ⊢
          exact exponentDigits_append hc h hr hd
        case neg =>
          simp only [if_neg hs] at h ⊢
          exact exponentDigits_append hc h hr hd

-- The scanners leave the end of the text.

theorem scanExponent_ne_nil {ds : Str} (h : scanExponent s = (ds, rest)) (hr : rest ≠ []) : s ≠ [] := by
  rintro rfl
  cases h
  exact hr rfl

theorem scanFraction_ne_nil {ds : Str} (h : scanFraction s = (ds, rest)) (hr : rest ≠ []) : s ≠ [] := by
  rintro rfl
  cases h
  exact hr rfl

theorem scanExponent_head {ds : Str} (h : scanExponent s = (ds, rest)) (hs : Stops rest) :
    s.head? ≠ some 0x2E := by
  intro hd
  obtain ⟨t, rfl⟩ : ∃ t, s = 0x2E :: t := List.head?_eq_some_iff.mp hd
  cases h
  exact (hs 0x2E rfl).right.left rfl

-- `scanNumber` after the sign
def scanUnsigned (F : FloatFormat) (sign s : Str) : Except LoadsError (Json × Str) :=
  match scanWhole s with
  | none             => .error .decodeError
  | some (whole, tl) =>
    let (fraction, tl) := scanFraction tl
    let (exponent, tl) := scanExponent tl
    if fraction = [] ∧ exponent = [] then
      if whole.length ≤ maxStrDigits then
        .ok (.int (if sign = [] then ofDecimal whole else -ofDecimal whole), tl)
      else .error .valueError
    else .ok (.float (F.parse (sign ++ whole ++ fraction ++ exponent)), tl)

theorem scanNumber_cons {c : CodePoint} :
    scanNumber F (c :: s) = if c = 0x2D then scanUnsigned F [c] s else scanUnsigned F [] (c :: s) := by
  unfold scanNumber
  by_cases hc : c = 0x2D
  case pos =>
    simp only [if_pos hc]
    rfl
  case neg =>
    simp only [if_neg hc]
    rfl

theorem scanUnsigned_append {sign : Str} {v : Json} (h : scanUnsigned F sign s = .ok (v, rest))
    (hr : rest ≠ []) (hs : Stops rest) : scanUnsigned F sign (s ++ x) = .ok (v, rest ++ x) := by
  unfold scanUnsigned at h ⊢
  cases hw : scanWhole s
  case none => rw [hw] at h; cases h
  case some p =>
    obtain ⟨whole, tl⟩ := p
    cases hf : scanFraction tl
    case mk fraction tl' =>
      cases he : scanExponent tl'
      case mk exponent tl'' =>
        have hrest : rest = tl'' := by
          simp only [hw, hf, he] at h
          split at h
          · split at h <;> cases h
            rfl
          · cases h
            rfl
        subst hrest
        have hr' := scanExponent_ne_nil he hr
        have he' := scanExponent_append (x := x) he hr fun c hc => (hs c hc).right.right
        have hf' := scanFraction_append (x := x) hf hr' (scanExponent_head he hs)
        have hw' := scanWhole_append (x := x) hw (scanFraction_ne_nil hf hr')
        simp only [hw, hf, he] at h
        simp only [hw', hf', he']
        split at h
        case isTrue hi =>
          rw [if_pos hi]
          split at h <;> cases h
          case isTrue hl => rw [if_pos hl]
        case isFalse hi =>
          rw [if_neg hi]
          cases h
          rfl

theorem scanNumber_append {v : Json} (h : scanNumber F s = .ok (v, rest)) (hr : rest ≠ [])
    (hs : Stops rest) : scanNumber F (s ++ x) = .ok (v, rest ++ x) := by
  cases s
  case nil => cases h
  case cons c s =>
    rw [List.cons_append, scanNumber_cons]
    rw [scanNumber_cons] at h
    split at h
    case isTrue hc => rw [if_pos hc, scanUnsigned_append h hr hs]
    case isFalse hc => rw [if_neg hc, ← List.cons_append, scanUnsigned_append h hr hs]

-- A number starts with a digit, possibly after a sign.
theorem scanNumber_head {r : Json × Str} (h : scanNumber F s = .ok r) :
    ∃ negative c t, s = numberSign negative ++ c :: t ∧ isDigit c := by
  have whole {sign t : Str} (h : scanUnsigned F sign t = .ok r) : ∃ c t', t = c :: t' ∧ isDigit c := by
    unfold scanUnsigned at h
    cases t
    case nil => cases h
    case cons c t =>
      refine ⟨c, t, rfl, ?_⟩
      by_contra hd
      have hz : c ≠ 0x30 := fun hz => hd (hz ▸ rfl)
      simp only [scanWhole, if_neg hz, if_neg hd] at h
      cases h
  cases s
  case nil => cases h
  case cons c s =>
    rw [scanNumber_cons] at h
    split at h
    case isTrue hc =>
      obtain ⟨d, t, ht, hd⟩ := whole h
      exact ⟨true, d, t, by rw [hc, ht]; rfl, hd⟩
    case isFalse =>
      obtain ⟨d, t, ht, hd⟩ := whole h
      exact ⟨false, d, t, ht, hd⟩

theorem scanAtom_literal {y : Str} : ∀ p ∈ literals, scanAtom F (p.fst ++ y) = .ok (p.snd, y) := by
  intro p hp
  simp only [literals, List.mem_cons, List.not_mem_nil, or_false] at hp
  rcases hp with rfl | rfl | rfl | rfl | rfl | rfl <;> rfl

theorem scanAtom_append {v : Json} (h : scanAtom F s = .ok (v, rest)) (hr : rest ≠ [])
    (hs : Stops rest) : scanAtom F (s ++ x) = .ok (v, rest ++ x) := by
  cases hl : literals.find? (·.fst.isPrefixOf s)
  case some p =>
    have hm := List.mem_of_find?_eq_some hl
    have hp : p.fst.isPrefixOf s := by simpa using List.find?_some hl
    obtain ⟨t, rfl⟩ := List.isPrefixOf_iff_prefix.mp hp
    cases (scanAtom_literal p hm).symm.trans h
    rw [List.append_assoc]
    exact scanAtom_literal p hm
  case none =>
    have h : scanNumber F s = .ok (v, rest) := by simpa only [scanAtom, hl] using h
    have ha := scanNumber_append (x := x) h hr hs
    obtain ⟨negative, c, t, rfl, hc⟩ := scanNumber_head h
    rw [List.append_assoc, List.cons_append] at ha ⊢
    rw [scanAtom_number hc, ha]

-- Lists and objects

theorem skipWs_append {c : CodePoint} (h : skipWs s = c :: rest) : skipWs (s ++ x) = c :: (rest ++ x) := by
  have hn : skipWs s ≠ [] := h ▸ List.cons_ne_nil _ _
  rw [skipWs, (dropWhile_append hn).right]
  change skipWs s ++ x = _
  rw [h, List.cons_append]

-- A value is followed by what cannot continue a number.
theorem stops_of_skipWs {c : CodePoint} (h : skipWs s = c :: rest) (hc : c = 0x2C ∨ c = 0x5D ∨ c = 0x7D) :
    s ≠ [] ∧ Stops s := by
  have hstop : Stops (c :: rest) := by
    rcases hc with rfl | rfl | rfl <;> exact stops_cons (by decide)
  have he : s = s.takeWhile isWs ++ c :: rest := by rw [← h]; exact List.takeWhile_append_dropWhile.symm
  refine ⟨?_, ?_⟩
  · rintro rfl
    cases h
  · rw [he]
    exact stops_blank (fun _ => List.mem_takeWhile_imp) hstop

def opensValue (c : CodePoint) : Prop :=
  c = 0x22 ∨ c = 0x7B ∨ c = 0x5B

-- With this fuel or more, each scanner finds the same in front of more text.

def ExtendsValues (F : FloatFormat) (fuel : Nat) : Prop :=
  ∀ {fuel' s v rest x}, fuel ≤ fuel' → scanOnce F fuel s = .ok (v, rest) →
    (rest ≠ [] ∧ Stops rest ∨ ∃ c tl, s = c :: tl ∧ opensValue c) →
    scanOnce F fuel' (s ++ x) = .ok (v, rest ++ x)

def ExtendsItems (F : FloatFormat) (fuel : Nat) : Prop :=
  ∀ {fuel' acc s v rest x}, fuel ≤ fuel' → scanItems F fuel acc s = .ok (v, rest) →
    scanItems F fuel' acc (s ++ x) = .ok (v, rest ++ x)

def ExtendsFields (F : FloatFormat) (fuel : Nat) : Prop :=
  ∀ {fuel' acc s v rest x}, fuel ≤ fuel' → scanFields F fuel acc s = .ok (v, rest) →
    scanFields F fuel' acc (s ++ x) = .ok (v, rest ++ x)

variable {fuel : Nat}

-- After the opening bracket of a list or an object: the closing one, or what `scan` reads
theorem extends_open {close : CodePoint} {empty v : Json} {tl : Str}
    {scan scan' : Str → Except LoadsError (Json × Str)}
    (hs : ∀ {t}, scan t = .ok (v, rest) → scan' (t ++ x) = .ok (v, rest ++ x))
    (h : (match skipWs tl with
      | []     => .error .decodeError
      | d :: t => if d = close then .ok (empty, t) else scan (d :: t) : Except _ _) = .ok (v, rest)) :
    (match skipWs (tl ++ x) with
      | []     => .error .decodeError
      | d :: t => if d = close then .ok (empty, t) else scan' (d :: t) : Except _ _) =
      .ok (v, rest ++ x) := by
  split at h
  case h_1 => cases h
  case h_2 d t ht =>
    rw [skipWs_append ht]
    simp only
    split at h
    case isTrue hd =>
      cases h
      rw [if_pos hd]
    case isFalse hd =>
      rw [if_neg hd]
      exact hs h

theorem extendsValues_succ (hvs : ExtendsItems F fuel) (hkvs : ExtendsFields F fuel) :
    ExtendsValues F (fuel + 1) := by
  intro fuel' s v rest x hf h hr
  obtain ⟨fuel', rfl⟩ : ∃ f, fuel' = f + 1 := Nat.exists_eq_succ_of_ne_zero (by omega)
  have hf := Nat.le_of_succ_le_succ hf
  cases s
  case nil => cases h
  case cons c tl =>
    rw [scanOnce] at h
    rw [List.cons_append, scanOnce]
    split at h
    case isTrue hc =>
      obtain ⟨⟨k, r⟩, hk, h⟩ := Except.bind_eq_ok.mp h
      cases h
      rw [if_pos hc, scanString_append hk]
      rfl
    case isFalse hq =>
      rw [if_neg hq]
      split at h
      case isTrue hc =>
        rw [if_pos hc]
        exact extends_open (hkvs hf) h
      case isFalse ho =>
        rw [if_neg ho]
        split at h
        case isTrue hc =>
          rw [if_pos hc]
          exact extends_open (hvs hf) h
        case isFalse hb =>
          rw [if_neg hb]
          rcases hr with ⟨hr, hs⟩ | ⟨_, _, he, hc⟩
          · exact scanAtom_append h hr hs
          · cases he
            exact (hc.elim hq (Or.elim · ho hb)).elim

theorem scanItems_ne_nil {acc : List Json} {r : Json × Str} (h : scanItems F fuel acc s = .ok r) :
    s ≠ [] := by
  rintro rfl
  cases fuel
  case zero => cases h
  case succ fuel => cases fuel <;> cases h

theorem extendsItems_succ (hv : ExtendsValues F fuel) (hvs : ExtendsItems F fuel) :
    ExtendsItems F (fuel + 1) := by
  intro fuel' acc s v rest x hf h
  obtain ⟨fuel', rfl⟩ : ∃ f, fuel' = f + 1 := Nat.exists_eq_succ_of_ne_zero (by omega)
  have hf := Nat.le_of_succ_le_succ hf
  rw [scanItems] at h ⊢
  obtain ⟨⟨w, r⟩, hw, h⟩ := Except.bind_eq_ok.mp h
  simp only at h
  split at h
  case h_1 => cases h
  case h_2 c t ht =>
    have hwx {y : Str} (hc : c = 0x2C ∨ c = 0x5D ∨ c = 0x7D) :
        scanOnce F fuel' (s ++ y) = .ok (w, r ++ y) := hv hf hw (.inl (stops_of_skipWs ht hc))
    split at h
    case isTrue hc =>
      cases h
      simp only [hwx (.inr (.inl hc)), bind, Except.bind, skipWs_append ht, if_pos hc]
    case isFalse hc =>
      split at h
      case isFalse => cases h
      case isTrue hc' =>
        obtain ⟨d, t', ht'⟩ := List.exists_cons_of_ne_nil (scanItems_ne_nil h)
        have hi := hvs (x := x) hf h
        rw [ht', List.cons_append] at hi
        simp only [hwx (.inl hc'), bind, Except.bind, skipWs_append ht, if_neg hc, if_pos hc',
          skipWs_append ht', hi]

theorem scanFields_ne_nil {acc : List (Text × Json)} {r : Json × Str}
    (h : scanFields F fuel acc s = .ok r) : s ≠ [] := by
  rintro rfl
  cases fuel <;> cases h

theorem scanOnce_ne_nil {r : Json × Str} (h : scanOnce F fuel s = .ok r) : s ≠ [] := by
  rintro rfl
  cases fuel <;> cases h

theorem extendsFields_succ (hv : ExtendsValues F fuel) (hkvs : ExtendsFields F fuel) :
    ExtendsFields F (fuel + 1) := by
  intro fuel' acc s v rest x hf h
  obtain ⟨fuel', rfl⟩ : ∃ f, fuel' = f + 1 := Nat.exists_eq_succ_of_ne_zero (by omega)
  have hf := Nat.le_of_succ_le_succ hf
  cases s
  case nil => cases h
  case cons q s =>
    rw [scanFields] at h
    rw [List.cons_append, scanFields]
    split at h
    case isTrue => cases h
    case isFalse hq =>
      rw [if_neg hq]
      obtain ⟨⟨k, r⟩, hk, h⟩ := Except.bind_eq_ok.mp h
      simp only at h
      split at h
      case h_1 => cases h
      case h_2 c t ht =>
        split at h
        case isTrue => cases h
        case isFalse hc =>
          obtain ⟨⟨w, r'⟩, hw, h⟩ := Except.bind_eq_ok.mp h
          simp only at h
          -- The value stands behind the blanks after the colon.
          obtain ⟨b, t', ht'⟩ := List.exists_cons_of_ne_nil (scanOnce_ne_nil hw)
          simp only [scanString_append hk, bind, Except.bind, skipWs_append ht, if_neg hc,
            skipWs_append ht']
          rw [ht'] at hw
          split at h
          case h_1 => cases h
          case h_2 d u hu =>
            have hwx (hd : d = 0x2C ∨ d = 0x5D ∨ d = 0x7D) :
                scanOnce F fuel' (b :: (t' ++ x)) = .ok (w, r' ++ x) :=
              hv hf hw (.inl (stops_of_skipWs hu hd))
            split at h
            case isTrue hd =>
              cases h
              simp only [hwx (.inr (.inr hd)), skipWs_append hu, if_pos hd]
            case isFalse hd =>
              split at h
              case isFalse => cases h
              case isTrue hd' =>
                obtain ⟨_, _, hn⟩ := List.exists_cons_of_ne_nil (scanFields_ne_nil h)
                have hi := hkvs (x := x) hf h
                rw [hn, List.cons_append] at hi
                simp only [hwx (.inl hd'), skipWs_append hu, if_neg hd, if_pos hd',
                  skipWs_append hn, hi]

theorem extends_scan (F : FloatFormat) (fuel : Nat) :
    ExtendsValues F fuel ∧ ExtendsItems F fuel ∧ ExtendsFields F fuel := by
  induction fuel
  case zero =>
    exact ⟨fun {_ _ _ _ _} _ h => (nomatch h), fun {_ _ _ _ _ _} _ h => (nomatch h),
      fun {_ _ _ _ _ _} _ h => (nomatch h)⟩
  case succ _ ih =>
    have ⟨hv, hvs, hkvs⟩ := ih
    exact ⟨extendsValues_succ hvs hkvs, extendsItems_succ hv hvs, extendsFields_succ hv hkvs⟩

theorem head_renders_obj {fields : List (Text × Json)} {t : Str} (h : Renders F (.obj fields) t) :
    t.head? = some 0x7B := by
  obtain ⟨_, _, rfl⟩ := h
  rfl

-- What is left of an object's text when its end is missing is no JSON text: were it one, reading
-- the whole text would stop before that end.
theorem loads_truncated {fields : List (Text × Json)} {q : Str} (hw : (obj fields).WellFormed)
    (ht : Renders F (.obj fields) (q ++ x)) (hx : x ≠ []) : ∃ e, loads F q = .error e := by
  cases hq : q
  case nil => exact ⟨_, rfl⟩
  case cons c tl =>
    have hc : (c :: (tl ++ x)).head? = some 0x7B := by
      rw [← List.cons_append, ← hq]
      exact head_renders_obj ht
    cases hc
    have hs := (scans F ((q ++ x).length + 1)).left (s := []) hw ht
      (Nat.le_succ_of_le (cost_le _ _ ht)) (fun _ h => nomatch h)
    subst hq
    have hb : (0x7B :: tl : Str).head? ≠ some 0xFEFF := fun h => nomatch h
    simp only [loads, if_neg hb, skipWs_of_not_isWs (rfl : isWs 0x7B = false)]
    cases h : scanOnce F ((0x7B :: tl : Str).length + 1) (0x7B :: tl)
    case error e => exact ⟨e, rfl⟩
    case ok r =>
      have hr : scanOnce F ((0x7B :: tl ++ x : Str).length + 1) (0x7B :: tl ++ x) = .ok (r.fst, r.snd ++ x) :=
        (extends_scan F _).left (by simp) h (.inr ⟨_, _, rfl, .inr (.inl rfl)⟩)
      rw [List.append_nil, hr] at hs
      have hn : r.snd ++ x = [] := congrArg (fun r => r.snd) (Except.ok.inj hs)
      exact absurd (List.append_eq_nil_iff.mp hn).right hx

end Json
