import Mathlib.Data.List.Basic
import Mathlib.Data.Nat.ModEq
import Mathlib.Tactic.Ring

abbrev Bytes := List UInt8

namespace Bytes

-- The `width` low-order base-256 digits of `n`, most significant digit first.
def ofNatBE : (width n : Nat) → Bytes
  | 0,         _ => []
  | width + 1, n => UInt8.ofNat (n / 256 ^ width) :: ofNatBE width n

def toNatBE (bs : Bytes) : Nat :=
  bs.foldl (fun acc b => acc * 256 + b.toNat) 0

@[simp]
theorem ofNatBE_length (width n : Nat) : (ofNatBE width n).length = width := by
  induction width <;> simp [ofNatBE, *]

theorem foldl_digits (bs : Bytes) (acc : Nat) :
    bs.foldl (fun acc b => acc * 256 + b.toNat) acc = acc * 256 ^ bs.length + toNatBE bs := by
  induction bs generalizing acc
  case nil => simp [toNatBE]
  case cons b bs hi =>
    have h₁ := hi (acc * 256 + b.toNat)
    have h₂ := hi (0 * 256 + b.toNat)
    simp only [toNatBE, List.foldl_cons, List.length_cons] at h₁ h₂ ⊢
    rw [h₁, h₂]
    ring

theorem toNatBE_cons (b : UInt8) (bs : Bytes) :
    toNatBE (b :: bs) = b.toNat * 256 ^ bs.length + toNatBE bs := by
  have h := foldl_digits bs (0 * 256 + b.toNat)
  simpa [toNatBE] using h

theorem toNatBE_ofNatBE (width n : Nat) : toNatBE (ofNatBE width n) = n % 256 ^ width := by
  induction width
  case zero => simp [ofNatBE, toNatBE, Nat.mod_one]
  case succ width hi =>
    rw [ofNatBE, toNatBE_cons, hi, ofNatBE_length, Nat.pow_succ, Nat.mod_mul]
    simp only [UInt8.toNat_ofNat', Nat.reducePow]
    ring

theorem ofNatBE_inj {width m n : Nat} (hm : m < 256 ^ width) (hn : n < 256 ^ width)
    (h : ofNatBE width m = ofNatBE width n) : m = n := by
  have h' := congrArg toNatBE h
  rwa [toNatBE_ofNatBE, toNatBE_ofNatBE, Nat.mod_eq_of_lt hm, Nat.mod_eq_of_lt hn] at h'

theorem toNatBE_lt (bs : Bytes) : toNatBE bs < 256 ^ bs.length := by
  induction bs
  case nil => simp [toNatBE]
  case cons b bs hi =>
    have hb : b.toNat + 1 ≤ 256 := b.toNat_lt
    calc toNatBE (b :: bs)
      _ < (b.toNat + 1) * 256 ^ bs.length := by rw [toNatBE_cons, Nat.succ_mul]; omega
      _ ≤ 256 ^ (b :: bs).length := by
        rw [List.length_cons, Nat.pow_succ']
        exact Nat.mul_le_mul_right _ hb

theorem toNatBE_inj {as bs : Bytes} (hl : as.length = bs.length) (h : toNatBE as = toNatBE bs) :
    as = bs := by
  induction as generalizing bs
  case nil => exact (List.length_eq_zero_iff.mp hl.symm).symm
  case cons a as hi =>
    cases bs
    case nil => cases hl
    case cons b bs =>
      have hl := Nat.succ.inj hl
      rw [toNatBE_cons, toNatBE_cons, hl] at h
      have ha := hl ▸ toNatBE_lt as
      have hb := toNatBE_lt bs
      -- The digit is the quotient and the rest the remainder.
      have hd : a.toNat = b.toNat := by
        have := congrArg (· / 256 ^ bs.length) h
        simpa [Nat.mul_add_div (Nat.pow_pos (by decide : 0 < 256)), Nat.mul_comm _ (256 ^ _),
          Nat.div_eq_of_lt ha, Nat.div_eq_of_lt hb] using this
      rw [hd, Nat.add_left_cancel_iff] at h
      rw [UInt8.toNat_inj.mp hd, hi hl h]

theorem ofNatBE_toNatBE (bs : Bytes) : ofNatBE bs.length (toNatBE bs) = bs := by
  apply toNatBE_inj (ofNatBE_length _ _)
  rw [toNatBE_ofNatBE, Nat.mod_eq_of_lt (toNatBE_lt bs)]

end Bytes
