import Peerc.Lib.Json.Basic

namespace Json

-- What a value is as the key of a `dict`: numbers of all types are equal if their values are. A number
-- that is no integer is given in units of 2⁻¹⁰⁷⁴. The decoder hands out one NaN object, which a `dict`
-- finds again.
inductive Key
  | none
  | int (n : Int)
  | fraction (units : Int)
  | infinity (negative : Bool)
  | nan
  | str (s : Text)
  deriving DecidableEq

def Key.ofDouble (x : Double) : Key :=
  if x.isNaN then nan
  else if ¬x.isFinite then infinity x.negative
  else if x.units % 2 ^ 1074 = 0 then int (x.units / 2 ^ 1074)
  else fraction x.units

-- A `list` and a `dict` are not hashable.
def key? : Json → Option Key
  | null       => some .none
  | bool false => some (.int 0)
  | bool true  => some (.int 1)
  | int n      => some (.int n)
  | float x    => some (.ofDouble x)
  | str s      => some (.str s)
  | arr _      => none
  | obj _      => none

-- `v == n`
def equalsInt (v : Json) (n : Int) : Bool :=
  v.key? = some (.int n)

-- `len(v)`
def len? : Json → Option Nat
  | str s      => some s.val.length
  | arr items  => some items.length
  | obj fields => some fields.length
  | _          => none

-- `bool(v)`
def truthy : Json → Bool
  | null       => false
  | bool b     => b
  | int n      => n ≠ 0
  | float x    => x.isNaN ∨ x.units ≠ 0
  | str s      => s.val ≠ []
  | arr items  => ¬items.isEmpty
  | obj fields => ¬fields.isEmpty

theorem Key.ofDouble_ne_str {x : Double} {s : Text} : ofDouble x ≠ str s := by
  unfold ofDouble
  repeat' split
  all_goals exact nofun

theorem key?_eq_str {v : Json} {s : Text} : v.key? = some (.str s) ↔ v = str s := by
  cases v <;> simp only [key?, Option.some.injEq, reduceCtorEq, Key.str.injEq, str.injEq]
  case bool b => cases b <;> simp
  case float x => simp only [Key.ofDouble_ne_str]

end Json
