import Mathlib.Tactic.SplitIfs
import Peerc.Lib.Double

-- The rounding of differences keeps their order, and leaves the values of doubles as they are.

namespace Double

-- The number of units next to `n / unit`, and the even one of two
def nearest (unit n : Nat) : Nat :=
  if unit < 2 * (n % unit) ∨ (unit = 2 * (n % unit) ∧ n / unit % 2 = 1) then n / unit + 1 else n / unit

-- The spacing of doubles at `n`
def spacing (n : Nat) : Nat :=
  2 ^ (n.log2 - 52)

theorem roundUnits_natCast (n : Nat) : roundUnits n = (nearest (spacing n) n * spacing n : Nat) := by
  cases n
  case zero => rfl
  case succ n =>
    rw [roundUnits, Int.sign_eq_one_of_pos (by omega), Int.one_mul]
    rfl

variable {unit m n : Nat}

theorem div_le_nearest : n / unit ≤ nearest unit n := by
  unfold nearest
  split_ifs <;> omega

theorem nearest_le : nearest unit n ≤ n / unit + 1 := by
  unfold nearest
  split_ifs <;> omega

theorem nearest_mono (h : m ≤ n) : nearest unit m ≤ nearest unit n := by
  have hm := Nat.div_add_mod m unit
  have hn := Nat.div_add_mod n unit
  rcases (Nat.div_le_div_right h : m / unit ≤ n / unit).eq_or_lt with he | hl
  · rw [he] at hm
    unfold nearest
    rw [he]
    split_ifs <;> omega
  · exact nearest_le.trans (Nat.le_trans hl div_le_nearest)

-- The powers of two on either side of `n` bound what it is rounded to.

theorem round_le (n : Nat) : nearest (spacing n) n * spacing n ≤ 2 ^ (n.log2 + 1) := by
  have hp : 2 ^ (n.log2 + 1) = 2 ^ (n.log2 + 1 - (n.log2 - 52)) * spacing n := by
    rw [spacing, ← Nat.pow_add, Nat.sub_add_cancel (by omega)]
  have hl : n < 2 ^ (n.log2 + 1) := Nat.lt_log2_self
  rw [hp] at hl ⊢
  exact Nat.mul_le_mul_right _ (nearest_le.trans (Nat.div_lt_of_lt_mul (by rwa [Nat.mul_comm] at hl)))

theorem le_round (h : n ≠ 0) : 2 ^ n.log2 ≤ nearest (spacing n) n * spacing n := by
  have hp : 2 ^ n.log2 = 2 ^ (n.log2 - (n.log2 - 52)) * spacing n := by
    rw [spacing, ← Nat.pow_add, Nat.sub_add_cancel (by omega)]
  have hl := Nat.log2_self_le h
  rw [hp] at hl ⊢
  refine Nat.mul_le_mul_right _ (Nat.le_trans ?_ div_le_nearest)
  exact (Nat.le_div_iff_mul_le (Nat.two_pow_pos _)).mpr hl

theorem round_mono (h : m ≤ n) :
    nearest (spacing m) m * spacing m ≤ nearest (spacing n) n * spacing n := by
  by_cases hm : m = 0
  case pos =>
    subst hm
    exact Nat.zero_le _
  case neg =>
    have hn : n ≠ 0 := by omega
    have hl : m.log2 ≤ n.log2 := (Nat.le_log2 hn).mpr ((Nat.log2_self_le hm).trans h)
    rcases hl.eq_or_lt with he | hl
    · have hs : spacing m = spacing n := by rw [spacing, he, spacing]
      rw [hs]
      exact Nat.mul_le_mul_right _ (nearest_mono h)
    · calc nearest (spacing m) m * spacing m
        _ ≤ 2 ^ (m.log2 + 1)                   := round_le m
        _ ≤ 2 ^ n.log2                         := Nat.pow_le_pow_right (by decide) hl
        _ ≤ nearest (spacing n) n * spacing n  := le_round hn

theorem roundUnits_mono {m n : Int} (hm : 0 ≤ m) (h : m ≤ n) : roundUnits m ≤ roundUnits n := by
  obtain ⟨k, rfl⟩ := Int.eq_ofNat_of_zero_le hm
  obtain ⟨l, rfl⟩ := Int.eq_ofNat_of_zero_le (hm.trans h)
  rw [roundUnits_natCast, roundUnits_natCast]
  exact Int.ofNat_le.mpr (round_mono (Int.ofNat_le.mp h))

theorem roundUnits_of_dvd (h : spacing n ∣ n) : roundUnits n = n := by
  have hp : 0 < spacing n := Nat.two_pow_pos _
  rw [roundUnits_natCast, nearest, Nat.mod_eq_zero_of_dvd h, if_neg (by omega), Nat.div_mul_cancel h]

-- The values of subnormal and of normal doubles

theorem spacing_of_lt (h : n < 2 ^ 53) : spacing n = 1 := by
  have hl : n.log2 - 52 = 0 := by
    by_cases hn : n = 0
    case pos =>
      subst hn
      rfl
    case neg =>
      have := (Nat.log2_lt hn).mpr h
      omega
  rw [spacing, hl, Nat.pow_zero]

theorem spacing_mul {e : Nat} (hl : 2 ^ 52 ≤ n) (hu : n < 2 ^ 53) : spacing (n * 2 ^ e) = 2 ^ e := by
  have hp : 0 < 2 ^ e := Nat.two_pow_pos e
  have hn : n * 2 ^ e ≠ 0 := Nat.mul_ne_zero (by omega) (by omega)
  have hlog : (n * 2 ^ e).log2 = 52 + e := by
    rw [Nat.log2_eq_iff hn, Nat.pow_add, Nat.add_right_comm, Nat.pow_add]
    exact ⟨Nat.mul_le_mul_right _ hl, Nat.mul_lt_mul_of_pos_right hu hp⟩
  rw [spacing, hlog, Nat.add_sub_cancel_left]

theorem roundUnits_units {x : Double} (h : 0 ≤ x.units) : roundUnits x.units = x.units := by
  have hm : x.mantissa < 2 ^ 52 := Nat.mod_lt _ (by decide)
  have hd : ∃ n : Nat, x.units.natAbs = n ∧ spacing n ∣ n := by
    by_cases he : x.exponent = 0
    case pos =>
      refine ⟨x.mantissa, ?_, by rw [spacing_of_lt (by omega)]; exact Nat.one_dvd _⟩
      simp only [units, if_pos he]
      split_ifs <;> simp only [Int.natAbs_neg, Int.natAbs_natCast]
    case neg =>
      refine ⟨(2 ^ 52 + x.mantissa) * 2 ^ (x.exponent - 1), ?_, ?_⟩
      · simp only [units, if_neg he]
        split_ifs <;> simp only [Int.natAbs_neg, Int.natAbs_natCast]
      · rw [spacing_mul (by omega) (by omega)]
        exact Nat.dvd_mul_left ..
  obtain ⟨n, hn, hs⟩ := hd
  have hu : x.units = n := by omega
  rw [hu, roundUnits_of_dvd hs]

-- `x - y > z`, of finite `x` and `y`. Nothing is larger than infinity, and nothing compares with NaN.
def subGt (x y z : Double) : Bool :=
  !z.isNaN && z ≠ infinity && z.units < subUnits x y

variable {x x' y z : Double}

theorem subGt_mono (hy : y.units ≤ x.units) (hx : x.units ≤ x'.units) (h : subGt x y z) : subGt x' y z := by
  simp only [subGt, Bool.and_eq_true, decide_eq_true_eq] at h ⊢
  exact ⟨h.left, h.right.trans_le (roundUnits_mono (by omega) (by omega))⟩

-- The exact difference is larger as well.
theorem units_lt_of_subGt (hy : y.units ≤ x.units) (h : subGt x y z) : z.units < x.units - y.units := by
  simp only [subGt, Bool.and_eq_true, decide_eq_true_eq] at h
  by_contra hn
  have hz : 0 ≤ z.units := by omega
  have hr := roundUnits_mono (by omega) (Int.not_lt.mp hn)
  rw [roundUnits_units hz] at hr
  exact Int.not_lt.mpr hr h.right

end Double
