import Mathlib.Data.Nat.Digits.Lemmas
import Peerc.Lib.Json.Parse

-- Digits

theorem digit_val {d : Nat} (h : d < 10) : (digit d).val = 0x30 + d := by
  simp only [digit, Fin.val_ofNat]
  omega

theorem isDigit_digit {d : Nat} (h : d < 10) : isDigit (digit d) := by
  simp only [isDigit, digit_val h, Bool.and_eq_true, decide_eq_true_eq]
  omega

theorem ofDecimal_digits {ds : List Nat} (h : ∀ d ∈ ds, d < 10) :
    ofDecimal (ds.reverse.map digit) = Nat.ofDigits 10 ds := by
  induction ds
  case nil => rfl
  case cons d ds hi =>
    have hd := digit_val (h d List.mem_cons_self)
    have hi := hi fun d hd => h d (List.mem_cons_of_mem _ hd)
    simp only [ofDecimal] at hi
    simp only [ofDecimal, List.reverse_cons, List.map_append, List.map_cons, List.map_nil,
      List.foldl_append, hi, List.foldl_cons, List.foldl_nil, hd, Nat.ofDigits_cons]
    omega

theorem ofDecimal_decimal (n : Nat) : ofDecimal (decimal n) = n := by
  by_cases hn : n = 0
  · subst hn
    rfl
  · rw [decimal, if_neg hn, ofDecimal_digits fun d hd => Nat.digits_lt_base (by omega) hd,
      Nat.ofDigits_digits]

theorem isDigit_of_mem_decimal {n : Nat} {c : CodePoint} (h : c ∈ decimal n) : isDigit c := by
  rw [decimal] at h
  split at h
  case isTrue => exact List.mem_singleton.mp h ▸ isDigit_digit (by omega)
  case isFalse =>
    have ⟨d, hd, hc⟩ := List.mem_map.mp h
    exact hc ▸ isDigit_digit (Nat.digits_lt_base (by omega) (List.mem_reverse.mp hd))

theorem decimal_ne_nil (n : Nat) : decimal n ≠ [] := by
  rw [decimal]
  split
  case isTrue => simp
  case isFalse hn => simp [Nat.digits_ne_nil_iff_ne_zero, hn]

-- A decimal starts with a zero only if it is zero.
theorem decimal_head {n : Nat} {c : CodePoint} {s : Str} (h : decimal n = c :: s) :
    (c = 0x30 ∧ s = []) ∨ c ≠ 0x30 := by
  rw [decimal] at h
  split at h
  case isTrue =>
    cases h
    exact .inl ⟨rfl, rfl⟩
  case isFalse hn =>
    refine .inr fun hc => ?_
    have hne : Nat.digits 10 n ≠ [] := Nat.digits_ne_nil_iff_ne_zero.mpr hn
    have hr := List.map_eq_cons_iff.mp h
    obtain ⟨d, ds, hr, hd, -⟩ := hr
    have hl : (Nat.digits 10 n).getLast hne = d := by
      rw [← List.head_reverse (by simpa using hne)]
      simp [hr]
    have h₁ := Nat.getLast_digit_ne_zero 10 hn
    have h₂ : d < 10 :=
      hl ▸ Nat.digits_lt_base (by omega) (List.getLast_mem hne)
    rw [hl] at h₁
    have := congrArg Fin.val (hd.trans hc)
    rw [digit_val h₂] at this
    have h₃ : (0x30 : CodePoint).val = 0x30 := rfl
    omega

-- Nothing that would continue a number
def Stops (s : Str) : Prop :=
  ∀ c, s.head? = some c → ¬isDigit c ∧ c ≠ 0x2E ∧ c ≠ 0x65 ∧ c ≠ 0x45

theorem span_digits {d s : Str} (hd : ∀ c ∈ d, isDigit c) (hs : ∀ c, s.head? = some c → ¬isDigit c) :
    (d ++ s).span isDigit = (d, s) := by
  have hs' : s.takeWhile isDigit = [] ∧ s.dropWhile isDigit = s := by
    cases s
    case nil => exact ⟨rfl, rfl⟩
    case cons c s =>
      have := hs c rfl
      simp [this]
  rw [List.span_eq_takeWhile_dropWhile, List.takeWhile_append_of_pos hd,
    List.dropWhile_append_of_pos hd, hs'.left, hs'.right, List.append_nil]

namespace Json

variable {F : FloatFormat} {s : Str}

theorem scanWhole_decimal (n : Nat) (hs : ∀ c, s.head? = some c → ¬isDigit c) :
    scanWhole (decimal n ++ s) = some (decimal n, s) := by
  cases hd : decimal n
  case nil => exact absurd hd (decimal_ne_nil n)
  case cons c ds =>
    cases decimal_head hd
    case inl h => simp [scanWhole, h.left, h.right]
    case inr h =>
      have hc : isDigit c := isDigit_of_mem_decimal (n := n) (by simp [hd])
      simp only [scanWhole, List.cons_append, if_neg h, if_pos hc]
      rw [← List.cons_append, ← hd]
      rw [span_digits (fun c => isDigit_of_mem_decimal) hs]

theorem scanFraction_stops (hs : Stops s) : scanFraction s = ([], s) := by
  rcases s with _ | ⟨c, _ | ⟨d, s⟩⟩
  · rfl
  · rfl
  · simp [scanFraction, (hs c rfl).right.left]

theorem scanExponent_stops (hs : Stops s) : scanExponent s = ([], s) := by
  cases s
  case nil => rfl
  case cons c s => simp [scanExponent, (hs c rfl).right.right.left, (hs c rfl).right.right.right]

-- The text of a number starts with a digit, possibly after a sign.
def numberSign (negative : Bool) : Str :=
  if negative then [0x2D] else []

theorem decimal_cons (n : Nat) : ∃ c ds, decimal n = c :: ds ∧ isDigit c := by
  cases hd : decimal n
  case nil => exact absurd hd (decimal_ne_nil n)
  case cons c ds => exact ⟨c, ds, rfl, isDigit_of_mem_decimal (n := n) (by simp [hd])⟩

theorem ne_of_isDigit {c d : CodePoint} (hc : isDigit c) (hd : ¬isDigit d) : c ≠ d :=
  fun h => hd (h ▸ hc)

-- What `scanNumber` makes of a sign and an integer part followed by something else than a digit
theorem scanNumber_whole (negative : Bool) (n : Nat) (hs : ∀ c, s.head? = some c → ¬isDigit c) :
    scanNumber F (numberSign negative ++ decimal n ++ s) =
      let (fraction, tl) := scanFraction s
      let (exponent, tl) := scanExponent tl
      if fraction = [] ∧ exponent = [] then
        if (decimal n).length ≤ maxStrDigits then
          .ok (.int (if negative then -n else n), tl)
        else .error .valueError
      else .ok (.float (F.parse (numberSign negative ++ decimal n ++ fraction ++ exponent)), tl) := by
  have ⟨c, ds, hd, hc⟩ := decimal_cons n
  have hne : c ≠ 0x2D := ne_of_isDigit hc (by decide)
  have hw := scanWhole_decimal n hs
  have hn := ofDecimal_decimal n
  rw [hd] at hn hw ⊢
  rw [List.cons_append] at hw
  cases negative
  case true => simp [scanNumber, numberSign, hw, hn]
  case false => simp [scanNumber, numberSign, hw, hne, hn]

theorem scanNumber_dumpsInt {n : Int} {t : Str} (h : dumpsInt n = some t) (hs : Stops s) :
    scanNumber F (t ++ s) = .ok (.int n, s) := by
  simp only [dumpsInt, Option.ite_none_right_eq_some, Option.some.injEq] at h
  obtain ⟨hl, rfl⟩ := h
  have hw := scanNumber_whole (F := F) (decide (n < 0)) n.natAbs (fun c hc => (hs c hc).left)
  rw [scanFraction_stops hs] at hw
  simp only [scanExponent_stops hs, and_self, if_true, hl] at hw
  by_cases hn : n < 0
  · simp only [hn, decide_true, numberSign, if_true] at hw ⊢
    rw [show -(n.natAbs : Int) = n by omega] at hw
    exact hw
  · simp only [hn, decide_false, numberSign, Bool.false_eq_true, if_false] at hw ⊢
    rw [show (n.natAbs : Int) = n by omega] at hw
    exact hw

theorem isDigit_of_mem_digits {ds : List (Fin 10)} {c : CodePoint} (h : c ∈ FloatToken.digits ds) :
    isDigit c := by
  have ⟨d, _, hc⟩ := List.mem_map.mp h
  exact hc ▸ isDigit_digit d.isLt

theorem digits_cons {ds : List (Fin 10)} (h : ds ≠ []) :
    ∃ c tl, FloatToken.digits ds = c :: tl ∧ isDigit c := by
  cases ds
  case nil => exact absurd rfl h
  case cons d ds => exact ⟨digit d.val, ds.map (digit ·.val), rfl, isDigit_digit d.isLt⟩

theorem scanFraction_digits {ds : List (Fin 10)} (h : ds ≠ [])
    (hs : ∀ c, s.head? = some c → ¬isDigit c) :
    scanFraction (0x2E :: FloatToken.digits ds ++ s) = (0x2E :: FloatToken.digits ds, s) := by
  have ⟨c, tl, hd, hc⟩ := digits_cons h
  have hsp := span_digits (d := FloatToken.digits ds) (fun _ => isDigit_of_mem_digits) hs
  simp only [hd, List.cons_append] at hsp
  simp only [scanFraction, hd, hc, hsp, List.cons_append, and_self, if_true]

theorem scanExponent_digits {ds : List (Fin 10)} (h : ds ≠ []) (neg : Bool)
    (hs : ∀ c, s.head? = some c → ¬isDigit c) :
    scanExponent (0x65 :: (if neg then 0x2D else 0x2B) :: FloatToken.digits ds ++ s) =
      (0x65 :: (if neg then 0x2D else 0x2B) :: FloatToken.digits ds, s) := by
  have ⟨c, tl, hd, hc⟩ := digits_cons h
  have hsp := span_digits (d := FloatToken.digits ds) (fun _ => isDigit_of_mem_digits) hs
  simp only [hd, List.cons_append] at hsp
  cases neg <;>
    simp only [scanExponent, hd, List.cons_append, true_or, or_true, if_true, Bool.false_eq_true,
      if_false, hsp, List.nil_append]

-- The part of the text of a `float` after its integer part
def fractionText (t : FloatToken) : Str :=
  match t.fraction with
  | none    => []
  | some ds => 0x2E :: FloatToken.digits ds.val

def exponentText (t : FloatToken) : Str :=
  match t.exponent with
  | none           => []
  | some (neg, ds) => 0x65 :: (if neg then 0x2D else 0x2B) :: FloatToken.digits ds.val

theorem scanExponent_text (t : FloatToken) (hs : Stops s) :
    scanExponent (exponentText t ++ s) = (exponentText t, s) := by
  rw [exponentText]
  split
  case h_1 => exact scanExponent_stops hs
  case h_2 neg ds _ => exact scanExponent_digits ds.property neg fun c hc => (hs c hc).left

theorem exponentText_head (t : FloatToken) (hs : Stops s) {c : CodePoint}
    (h : (exponentText t ++ s).head? = some c) : ¬isDigit c ∧ c ≠ 0x2E := by
  rw [exponentText] at h
  split at h
  case h_1 => exact ⟨(hs c h).left, (hs c h).right.left⟩
  case h_2 =>
    simp only [List.cons_append, List.head?_cons, Option.some.injEq] at h
    exact h ▸ by decide

theorem scanFraction_text (t : FloatToken) (hs : Stops s) :
    scanFraction (fractionText t ++ (exponentText t ++ s)) = (fractionText t, exponentText t ++ s) := by
  rw [fractionText]
  split
  case h_1 =>
    rcases he : exponentText t ++ s with _ | ⟨c, _ | ⟨d, tl⟩⟩
    · rfl
    · rfl
    · have := (exponentText_head t hs (c := c) (by simp [he])).right
      simp [scanFraction, this]
  case h_2 ds _ =>
    exact scanFraction_digits ds.property fun c hc => (exponentText_head t hs hc).left

theorem scanNumber_render (t : FloatToken) (hs : Stops s) :
    scanNumber F (t.render ++ s) = .ok (.float (F.parse t.render), s) := by
  have hr : t.render = numberSign t.negative ++ decimal t.whole ++ fractionText t ++ exponentText t :=
    rfl
  have hh : ∀ c, (fractionText t ++ (exponentText t ++ s)).head? = some c → ¬isDigit c := by
    intro c hc
    rw [fractionText] at hc
    split at hc
    case h_1 => exact (exponentText_head t hs hc).left
    case h_2 =>
      simp only [List.cons_append, List.head?_cons, Option.some.injEq] at hc
      exact hc ▸ by decide
  have hp : ¬(fractionText t = [] ∧ exponentText t = []) := by
    intro h
    simp only [fractionText, exponentText] at h
    have := t.proper
    cases hf : t.fraction <;> cases he : t.exponent <;> simp_all
  rw [hr, List.append_assoc, List.append_assoc, List.append_assoc, ← List.append_assoc,
    scanNumber_whole t.negative t.whole hh, scanFraction_text t hs]
  simp only [scanExponent_text t hs, if_neg hp]

-- Strings

-- The UTF-16 code units of a code point
def units (c : CodePoint) : Str :=
  if c.val < 0x10000 then [c]
  else [Fin.ofNat _ (0xD800 + (c.val - 0x10000) / 0x400),
    Fin.ofNat _ (0xDC00 + (c.val - 0x10000) % 0x400)]

theorem head_units (c : CodePoint) : ∃ d tl, units c = d :: tl ∧ (d = c ∨ ¬d.IsLow) := by
  rw [units]
  split
  case isTrue => exact ⟨c, [], rfl, .inl rfl⟩
  case isFalse =>
    refine ⟨_, _, rfl, .inr fun h => ?_⟩
    have hl := h.left
    have := c.isLt
    simp only [Fin.val_ofNat] at hl
    omega

theorem joinPairs_units {s : Str} (h : NoPair s) : Str.joinPairs (s.flatMap units) = s := by
  induction s
  case nil => rfl
  case cons c s hi =>
    have hi := hi h.tail
    rw [List.flatMap_cons, units]
    split
    case isTrue =>
      rw [List.singleton_append]
      rcases s with _ | ⟨d, s⟩
      · rfl
      · obtain ⟨e, tl, hu, he⟩ := head_units d
        rw [List.flatMap_cons, hu, List.cons_append] at hi ⊢
        rw [Str.joinPairs, if_neg, hi]
        exact fun hp => he.elim (fun he => h.left ⟨hp.left, he ▸ hp.right⟩) (fun hn => hn hp.right)
    case isFalse hc =>
      have hlt := c.isLt
      have hh : (0xD800 + (c.val - 0x10000) / 0x400) % 0x110000 = 0xD800 + (c.val - 0x10000) / 0x400 := by
        omega
      have hl : (0xDC00 + (c.val - 0x10000) % 0x400) % 0x110000 = 0xDC00 + (c.val - 0x10000) % 0x400 := by
        omega
      rw [List.cons_append, List.cons_append, List.nil_append, Str.joinPairs, if_pos, hi]
      · refine congrArg (· :: s) (Fin.ext ?_)
        simp only [Fin.val_ofNat, hh, hl]
        omega
      · simp only [CodePoint.IsHigh, CodePoint.IsLow, Fin.val_ofNat, hh, hl]
        omega

theorem scanUnits_escapeUnit {u : Nat} (hu : u < 0x10000) (s : Str) :
    scanUnits (escapeUnit u ++ s) = (scanUnits s).map fun p => (Fin.ofNat _ u :: p.fst, p.snd) := by
  have h₁ := Bytes.hexValue_hexDigit (u / 4096 % 16) (by omega)
  have h₂ := Bytes.hexValue_hexDigit (u / 256 % 16) (by omega)
  have h₃ := Bytes.hexValue_hexDigit (u / 16 % 16) (by omega)
  have h₄ := Bytes.hexValue_hexDigit (u % 16) (by omega)
  have hv : ((u / 4096 % 16 * 16 + u / 256 % 16) * 16 + u / 16 % 16) * 16 + u % 16 = u := by omega
  have hb : (0x5C : CodePoint) ≠ 0x22 := by decide
  simp only [escapeUnit, List.cons_append, List.nil_append, scanUnits, if_neg hb, if_true, h₁, h₂, h₃,
    h₄, Option.bind_eq_bind, Option.bind_some, hv, Option.pure_def]
  cases scanUnits s <;> rfl

theorem scanUnits_escapeChar (c : CodePoint) (s : Str) :
    scanUnits (escapeChar c ++ s) = (scanUnits s).map fun p => (units c ++ p.fst, p.snd) := by
  -- The characters with a short escape, for which everything evaluates
  have short (e d : CodePoint) (he : e ≠ 0x75) (hd : unescape e = some d) (hu : units d = [d]) :
      scanUnits (0x5C :: e :: s) = (scanUnits s).map fun p => (units d ++ p.fst, p.snd) := by
    have hb : (0x5C : CodePoint) ≠ 0x22 := by decide
    rw [scanUnits.eq_def]
    simp only [if_neg hb, if_true, if_neg he, hd, hu, Option.bind_eq_bind, Option.bind_some,
      Option.pure_def]
    cases scanUnits s <;> rfl
  simp only [escapeChar]
  split
  case isTrue h => exact h ▸ short 0x22 0x22 (by decide) rfl rfl
  case isFalse hq =>
  split
  case isTrue h => exact h ▸ short 0x5C 0x5C (by decide) rfl rfl
  case isFalse hb =>
  split
  case isTrue h => exact h ▸ short _ _ (by decide) rfl rfl
  split
  case isTrue h => exact h ▸ short _ _ (by decide) rfl rfl
  split
  case isTrue h => exact h ▸ short _ _ (by decide) rfl rfl
  split
  case isTrue h => exact h ▸ short _ _ (by decide) rfl rfl
  split
  case isTrue h => exact h ▸ short _ _ (by decide) rfl rfl
  split
  case isTrue h =>
    have h₁ : ¬c.val < 0x20 := by omega
    have h₂ : c.val < 0x10000 := by omega
    rw [List.singleton_append, scanUnits.eq_def]
    simp only [if_neg hq, if_neg hb, if_neg h₁, units, if_pos h₂, Option.bind_eq_bind,
      Option.pure_def]
    cases scanUnits s <;> rfl
  split
  case isTrue h =>
    rw [scanUnits_escapeUnit h, units, if_pos h]
    simp
  case isFalse h =>
    have hc := c.isLt
    rw [List.append_assoc, scanUnits_escapeUnit (by omega), scanUnits_escapeUnit (by omega), units,
      if_neg h]
    cases scanUnits s <;> rfl

theorem scanUnits_escape (t s : Str) :
    scanUnits (t.flatMap escapeChar ++ 0x22 :: s) = some (t.flatMap units, s) := by
  induction t
  case nil =>
    rw [List.flatMap_nil, List.nil_append, scanUnits.eq_def]
    rfl
  case cons c t hi =>
    rw [List.flatMap_cons, List.append_assoc, scanUnits_escapeChar, hi]
    simp

theorem scanString_escape (t : Text) (s : Str) :
    scanString (t.val.flatMap escapeChar ++ 0x22 :: s) = .ok (t, s) := by
  have hj : Text.join (t.val.flatMap units) = t := Subtype.ext (joinPairs_units t.property)
  simp only [scanString, scanUnits_escape, hj]

end Json
