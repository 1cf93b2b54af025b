import Peerc.Lib.Bytes

-- A `float`, given by the bit pattern of the IEEE 754 double.
structure Double where
  bits : UInt64
  deriving DecidableEq

namespace Double

def zero : Double := ⟨0⟩

def infinity : Double := ⟨0x7FF0000000000000⟩

def negInfinity : Double := ⟨0xFFF0000000000000⟩

def nan : Double := ⟨0x7FF8000000000000⟩

def negative (x : Double) : Bool :=
  2 ^ 63 ≤ x.bits.toNat

def exponent (x : Double) : Nat :=
  x.bits.toNat / 2 ^ 52 % 2048

def mantissa (x : Double) : Nat :=
  x.bits.toNat % 2 ^ 52

def isNaN (x : Double) : Bool :=
  x.exponent = 2047 ∧ x.mantissa ≠ 0

def isFinite (x : Double) : Bool :=
  x.exponent ≠ 2047

-- The value in units of 2⁻¹⁰⁷⁴, of which every finite double is a multiple. An infinity gets a value
-- beyond every finite one, so the order of two doubles that are not NaN is the order of their units.
def units (x : Double) : Int :=
  let abs := if x.exponent = 0 then x.mantissa else (2 ^ 52 + x.mantissa) * 2 ^ (x.exponent - 1)
  if x.negative then -abs else abs

-- The number of units rounded to 53 significant bits, to the nearest one and a tie to the even one
def roundUnits (n : Int) : Int :=
  let unit := 2 ^ (n.natAbs.log2 - 52)
  let quotient := n.natAbs / unit
  let twice := 2 * (n.natAbs % unit)
  let up := unit < twice ∨ (unit = twice ∧ quotient % 2 = 1)
  n.sign * ((if up then quotient + 1 else quotient) * unit : Nat)

-- The units of `x - y`. A difference that is too large for a double stays larger than every double.
def subUnits (x y : Double) : Int :=
  roundUnits (x.units - y.units)

theorem roundUnits_nonneg {n : Int} (h : 0 ≤ n) : 0 ≤ roundUnits n :=
  Int.mul_nonneg (Int.sign_nonneg_iff.mpr h) (Int.natCast_nonneg _)

-- `struct.pack(">d", x)`
def pack (x : Double) : Bytes :=
  Bytes.ofNatBE 8 x.bits.toNat

theorem isFinite_zero : zero.isFinite := by
  decide

theorem pack_length (x : Double) : x.pack.length = 8 :=
  Bytes.ofNatBE_length ..

theorem pack_injective : Function.Injective pack := by
  intro x y h
  have hb := Bytes.ofNatBE_inj (show x.bits.toNat < 256 ^ 8 from x.bits.toNat_lt) y.bits.toNat_lt h
  cases x
  cases y
  exact congrArg mk (UInt64.toNat_inj.mp hb)

end Double

-- A reading of `time.time()`
abbrev Clock := { x : Double // x.isFinite }
