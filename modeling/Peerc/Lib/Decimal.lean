import Peerc.Lib.Json.Tokens
import Peerc.Lib.Uuid

-- The integers that are written in decimal, as `int` reads and `str` writes them

namespace Str

-- The digits of a number, between which there may be single underscores
def readDigits : Str → Option Str
  | []          => none
  | [c]         => if isDigit c then some [c] else none
  | c :: d :: s =>
    if isDigit c then
      (if d = Uuid.underscore then readDigits s else readDigits (d :: s)).map (c :: ·)
    else none

def readNat (s : Str) : Option Nat :=
  ((readDigits s).filter (·.length ≤ maxStrDigits)).map ofDecimal

-- `int(s)`
def readInt (s : Str) : Option Int :=
  match Uuid.strip Uuid.isBlank (s.map Uuid.toAscii) with
  | 0x2D :: s => (readNat s).map (-Int.ofNat ·)
  | 0x2B :: s => (readNat s).map Int.ofNat
  | s         => (readNat s).map Int.ofNat

variable {s t : Str} {c : CodePoint} {n : Int}

theorem readDigits_of_isDigit (hs : s ≠ []) (h : ∀ c ∈ s, isDigit c) : readDigits s = some s := by
  induction s
  case nil => exact absurd rfl hs
  case cons c s hi =>
    obtain ⟨hc, ht⟩ := List.forall_mem_cons.mp h
    cases s
    case nil => rw [readDigits, if_pos hc]
    case cons d s =>
      have hd : d ≠ Uuid.underscore := fun he => absurd (ht d List.mem_cons_self) (he ▸ by decide)
      rw [readDigits, if_pos hc, if_neg hd, hi (List.cons_ne_nil _ _) ht, Option.map_some]

theorem readNat_decimal {m : Nat} (h : (decimal m).length ≤ maxStrDigits) :
    readNat (decimal m) = some m := by
  have hd : ∀ c ∈ decimal m, isDigit c := fun _ => isDigit_of_mem_decimal
  rw [readNat, readDigits_of_isDigit (decimal_ne_nil m) hd, Option.filter_some, if_pos (decide_eq_true h),
    Option.map_some, ofDecimal_decimal]

-- Neither a sign nor a digit is skipped or replaced.
theorem strip_toAscii (h : ∀ c ∈ s, c = 0x2D ∨ isDigit c) :
    Uuid.strip Uuid.isBlank (s.map Uuid.toAscii) = s := by
  have hv : ∀ c ∈ s, 0x2D ≤ c.val ∧ c.val ≤ 0x39 := by
    intro c hc
    rcases h c hc with rfl | hd
    · decide
    · simp only [isDigit, Bool.and_eq_true, decide_eq_true_eq] at hd
      omega
  have ha : ∀ c ∈ s, Uuid.toAscii c = id c := by
    intro c hc
    have := hv c hc
    rw [Uuid.toAscii, if_pos (by omega), id]
  rw [(List.map_congr_left ha).trans (List.map_id s)]
  refine Uuid.strip_of_forall_not fun c hc hb => ?_
  have := hv c hc
  simp only [Uuid.isBlank, decide_eq_true_eq] at hb
  omega

theorem readInt_dumpsInt (h : Json.dumpsInt n = some t) : readInt t = some n := by
  rw [Json.dumpsInt, Option.ite_none_right_eq_some, Option.some.injEq] at h
  obtain ⟨hl, rfl⟩ := h
  have hd : ∀ c ∈ decimal n.natAbs, isDigit c := fun _ => isDigit_of_mem_decimal
  split
  case isTrue hn =>
    have hs := strip_toAscii (s := 0x2D :: decimal n.natAbs)
      (List.forall_mem_cons.mpr ⟨.inl rfl, fun c hc => .inr (hd c hc)⟩)
    rw [readInt, hs]
    simp only [readNat_decimal hl, Option.map_some, Option.some.injEq, Int.ofNat_eq_natCast]
    omega
  case isFalse hn =>
    rw [readInt, strip_toAscii fun c hc => .inr (hd c hc)]
    have hr : (readNat (decimal n.natAbs)).map Int.ofNat = some n := by
      rw [readNat_decimal hl, Option.map_some, Option.some.injEq]
      exact Int.natAbs_of_nonneg (not_lt.mp hn)
    split
    case h_1 s hs => exact absurd (hd 0x2D (hs ▸ List.mem_cons_self)) (by decide)
    case h_2 s hs => exact absurd (hd 0x2B (hs ▸ List.mem_cons_self)) (by decide)
    case h_3 => exact hr

end Str
