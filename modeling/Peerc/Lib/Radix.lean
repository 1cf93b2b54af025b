import Mathlib.Algebra.Field.ZMod
import Mathlib.Data.Nat.Digits.Defs
import Mathlib.Tactic.LinearCombination

-- Numerals with the most significant digit first, and check digits modulo a prime

namespace Radix

section Numerals

variable {b : Nat} {ds es : List (Fin b)}

-- The number that is written
def value (ds : List (Fin b)) : Nat :=
  Nat.ofDigits b (ds.reverse.map Fin.val)

theorem value_append : value (ds ++ es) = value ds * b ^ es.length + value es := by
  simp only [value, List.reverse_append, List.map_append, Nat.ofDigits_append, List.length_map,
    List.length_reverse]
  ring

theorem value_singleton (d : Fin b) : value [d] = d :=
  Nat.ofDigits_singleton

theorem value_cons (d : Fin b) : value (d :: ds) = d * b ^ ds.length + value ds := by
  rw [← List.singleton_append, value_append, value_singleton]

theorem value_concat (d : Fin b) : value (ds ++ [d]) = value ds * b + d := by
  rw [value_append, value_singleton, List.length_singleton, pow_one]

theorem val_lt_of_mem : ∀ x ∈ ds.reverse.map Fin.val, x < b := by
  intro x hx
  obtain ⟨d, -, rfl⟩ := List.mem_map.mp hx
  exact d.isLt

theorem value_lt (hb : 1 < b) (ds : List (Fin b)) : value ds < b ^ ds.length := by
  have hm : ∀ x ∈ ds.reverse.map Fin.val, x < b := val_lt_of_mem
  have h := Nat.ofDigits_lt_base_pow_length hb hm
  rwa [List.length_map, List.length_reverse] at h

-- A numeral is determined by its length and its number.
theorem value_inj (hb : 1 < b) (hl : ds.length = es.length) (h : value ds = value es) : ds = es := by
  have hm := Nat.ofDigits_inj_of_len_eq hb (by simpa using hl) val_lt_of_mem val_lt_of_mem h
  exact List.reverse_injective (List.map_injective_iff.mpr Fin.val_injective hm)

-- The numeral of a given length, which wraps
def digits (b : Nat) [NeZero b] : (width n : Nat) → List (Fin b)
  | 0,         _ => []
  | width + 1, n => Fin.ofNat b (n / b ^ width) :: digits b width n

variable [NeZero b]

@[simp]
theorem digits_length (width n : Nat) : (digits b width n).length = width := by
  induction width
  case zero => rfl
  case succ width hi => rw [digits, List.length_cons, hi]

theorem value_digits (width n : Nat) : value (digits b width n) = n % b ^ width := by
  induction width
  case zero => rw [pow_zero, Nat.mod_one]; rfl
  case succ width hi =>
    rw [digits, value_cons, hi, digits_length, Nat.pow_succ, Nat.mod_mul, Fin.val_ofNat]
    ring

theorem digits_value (hb : 1 < b) (ds : List (Fin b)) : digits b ds.length (value ds) = ds := by
  refine value_inj hb (digits_length _ _) ?_
  rw [value_digits, Nat.mod_eq_of_lt (value_lt hb ds)]

end Numerals

-- A check digit is the number modulo a prime that is greater than the base.

section Check

variable {b p : Nat} [Fact p.Prime] {pre mid post : List (Fin b)} {a c : Fin b}

theorem cast_injective (hb : b < p) (h : (a.val : ZMod p) = c.val) : a = c := by
  have := (ZMod.natCast_eq_natCast_iff' a.val c.val p).mp h
  rw [Nat.mod_eq_of_lt (a.isLt.trans hb), Nat.mod_eq_of_lt (c.isLt.trans hb)] at this
  exact Fin.ext this

theorem cast_base_ne_zero (hb : b < p) (a : Fin b) : (b : ZMod p) ≠ 0 := by
  intro h
  have := Nat.le_of_dvd a.pos ((ZMod.natCast_eq_zero_iff b p).mp h)
  omega

-- It changes with every digit,
theorem check_replace (hb : b < p) (h : a ≠ c) :
    value (pre ++ a :: post) % p ≠ value (pre ++ c :: post) % p := by
  intro he
  have he := (ZMod.natCast_eq_natCast_iff' _ _ p).mpr he
  simp only [value_append, value_cons, List.length_cons, Nat.cast_add, Nat.cast_mul, Nat.cast_pow] at he
  have hz : ((a.val : ZMod p) - c.val) * (b : ZMod p) ^ post.length = 0 := by
    linear_combination he
  rcases mul_eq_zero.mp hz with h₁ | h₁
  · exact h (cast_injective hb (sub_eq_zero.mp h₁))
  · exact cast_base_ne_zero hb a (eq_zero_of_pow_eq_zero h₁)

-- and with the order of two digits whose distance is no multiple of the base's order.
theorem check_exchange (hb : b < p) (h : a ≠ c) (ho : b ^ (mid.length + 1) % p ≠ 1 % p) :
    value (pre ++ a :: (mid ++ c :: post)) % p ≠ value (pre ++ c :: (mid ++ a :: post)) % p := by
  intro he
  have he := (ZMod.natCast_eq_natCast_iff' _ _ p).mpr he
  simp only [value_append, value_cons, List.length_cons, List.length_append, Nat.cast_add, Nat.cast_mul,
    Nat.cast_pow] at he
  have hz : ((a.val : ZMod p) - c.val) * (b : ZMod p) ^ post.length * ((b : ZMod p) ^ (mid.length + 1) - 1) = 0 := by
    linear_combination he
  rcases mul_eq_zero.mp hz with h₁ | h₁
  · rcases mul_eq_zero.mp h₁ with h₁ | h₁
    · exact h (cast_injective hb (sub_eq_zero.mp h₁))
    · exact cast_base_ne_zero hb a (eq_zero_of_pow_eq_zero h₁)
  · refine ho ((ZMod.natCast_eq_natCast_iff' _ _ p).mp ?_)
    rw [Nat.cast_pow, Nat.cast_one]
    exact sub_eq_zero.mp h₁

-- The last digit and the check digit cannot be exchanged either.
theorem check_exchange_check (hb : b < p) (hp : p ≠ 2) (h : a ≠ c) (hc : value (pre ++ [a]) % p = c) :
    value (pre ++ [c]) % p ≠ a := by
  intro ha
  have cast {ds : List (Fin b)} {d : Fin b} (hd : value ds % p = d) : (value ds : ZMod p) = d.val := by
    rw [← hd, ZMod.natCast_mod]
  have hc := cast hc
  have ha := cast ha
  simp only [value_concat, Nat.cast_add, Nat.cast_mul] at ha hc
  have hz : (2 : ZMod p) * (a.val - c.val) = 0 := by
    linear_combination hc - ha
  rcases mul_eq_zero.mp hz with h₁ | h₁
  · have h₂ := Nat.le_of_dvd two_pos ((ZMod.natCast_eq_zero_iff 2 p).mp h₁)
    exact hp (Nat.le_antisymm h₂ (Fact.out : p.Prime).two_le)
  · exact h (cast_injective hb (sub_eq_zero.mp h₁))

end Check

end Radix
