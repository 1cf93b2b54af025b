import Mathlib.Data.Nat.Digits.Defs
import Mathlib.Data.List.Sort
import Peerc.Lib.Double
import Peerc.Lib.Encoding

-- A value of the `json` module. Equal strings are equal texts: the encoder writes a code point beyond
-- the basic plane as two escapes, and the decoder joins two such escapes.
inductive Json
  | null
  | bool (b : Bool)
  | int (n : Int)
  | float (x : Double)
  | str (s : Text)
  | arr (items : List Json)
  | obj (fields : List (Text × Json))

namespace Json

-- `fields.get(key)`, of a `dict`
def get? : Json → Text → Option Json
  | obj fields, key => (fields.find? (·.fst = key)).map (·.snd)
  | _,          _   => none

-- `fields[key] = value` keeps the position of a key that is present.
def setItem (key : Text) (value : Json) : List (Text × Json) → List (Text × Json)
  | []                => [(key, value)]
  | (key', v) :: rest => if key' = key then (key, value) :: rest else (key', v) :: setItem key value rest

mutual

-- What a Python value built of `dict`, `list`, `str`, `int`, `float`, `bool` and `None` satisfies: the
-- keys of a `dict` are distinct. Python tells no two NaNs apart, so `Double.nan` stands for all of them.
def WellFormed : Json → Prop
  | null | bool _ | int _ | str _ => True
  | float x    => x.isNaN → x = .nan
  | arr items  => WellFormedItems items
  | obj fields => (fields.map (·.fst)).Nodup ∧ WellFormedFields fields

def WellFormedItems : List Json → Prop
  | []      => True
  | v :: vs => v.WellFormed ∧ WellFormedItems vs

def WellFormedFields : List (Text × Json) → Prop
  | []            => True
  | (_, v) :: kvs => v.WellFormed ∧ WellFormedFields kvs

end

theorem float_wellFormed {x : Double} (h : ¬x.isNaN) : (float x).WellFormed :=
  fun hn => absurd hn h

theorem zero_wellFormed : (float .zero).WellFormed :=
  float_wellFormed (by decide)

end Json

-- Numbers

def digit (d : Nat) : CodePoint :=
  Fin.ofNat _ (0x30 + d)

def isDigit (c : CodePoint) : Bool :=
  0x30 ≤ c.val && c.val ≤ 0x39

-- `str(n)`
def decimal (n : Nat) : Str :=
  if n = 0 then [digit 0] else (Nat.digits 10 n).reverse.map digit

-- `int(s)`, of a sequence of digits
def ofDecimal (s : Str) : Nat :=
  s.foldl (fun acc c => acc * 10 + (c.val - 0x30)) 0

-- The interpreter converts no integer with more digits to or from a text.
def maxStrDigits : Nat := 4300

-- The text of a finite `float`: digits with a fraction or an exponent, or both
structure FloatToken where
  negative : Bool
  whole    : Nat
  fraction : Option { ds : List (Fin 10) // ds ≠ [] }
  exponent : Option (Bool × { ds : List (Fin 10) // ds ≠ [] })
  proper   : fraction.isSome ∨ exponent.isSome

namespace FloatToken

def digits (ds : List (Fin 10)) : Str :=
  ds.map (digit ·.val)

def render (t : FloatToken) : Str :=
  (if t.negative then [0x2D] else []) ++ decimal t.whole ++
  (match t.fraction with
    | none    => []
    | some ds => 0x2E :: digits ds.val) ++
  (match t.exponent with
    | none           => []
    | some (neg, ds) => 0x65 :: (if neg then 0x2D else 0x2B) :: digits ds.val)

end FloatToken

-- `repr` and `float` of the interpreter: the text of a finite number reads back as the number.
structure FloatFormat where
  repr  : Double → FloatToken
  parse : Str → Double
  parse_repr (x : Double) : x.isFinite → parse (repr x).render = x

namespace Json

-- The escapes of `ensure_ascii`: everything but the printable ASCII characters

def escapeUnit (u : Nat) : Str :=
  [0x5C, 0x75, Bytes.hexDigit (u / 4096 % 16), Bytes.hexDigit (u / 256 % 16),
    Bytes.hexDigit (u / 16 % 16), Bytes.hexDigit (u % 16)]

def escapeChar (c : CodePoint) : Str :=
  if c = 0x22 then [0x5C, 0x22]
  else if c = 0x5C then [0x5C, 0x5C]
  else if c = 0x0A then [0x5C, 0x6E]
  else if c = 0x0D then [0x5C, 0x72]
  else if c = 0x09 then [0x5C, 0x74]
  else if c = 0x0C then [0x5C, 0x66]
  else if c = 0x08 then [0x5C, 0x62]
  else if 0x20 ≤ c.val ∧ c.val ≤ 0x7E then [c]
  else if c.val < 0x10000 then escapeUnit c.val
  else escapeUnit (0xD800 + (c.val - 0x10000) / 0x400) ++ escapeUnit (0xDC00 + (c.val - 0x10000) % 0x400)

def escape (s : Str) : Str :=
  0x22 :: s.flatMap escapeChar ++ [0x22]

-- The default separators of `json.dumps`, and the ones of `separators=(",", ":")`
inductive Style
  | default
  | compact

namespace Style

def item : Style → Str
  | default => [0x2C, 0x20]
  | compact => [0x2C]

def key : Style → Str
  | default => [0x3A, 0x20]
  | compact => [0x3A]

end Style

def dumpsInt (n : Int) : Option Str :=
  let ds := decimal n.natAbs
  if ds.length ≤ maxStrDigits then some (if n < 0 then 0x2D :: ds else ds) else none

def dumpsFloat (F : FloatFormat) (x : Double) : Str :=
  if x.isNaN then Str.ofString "NaN"
  else if x.isFinite then (F.repr x).render
  else if x.negative then Str.ofString "-Infinity"
  else Str.ofString "Infinity"

variable (F : FloatFormat) (style : Style)

mutual

-- `json.dumps`. No result: an integer has too many digits, which raises `ValueError`.
def dumps : Json → Option Str
  | null       => some (Str.ofString "null")
  | bool true  => some (Str.ofString "true")
  | bool false => some (Str.ofString "false")
  | int n      => dumpsInt n
  | float x    => some (dumpsFloat F x)
  | str s      => some (escape s.val)
  | arr items  => do return 0x5B :: (← dumpsItems items) ++ [0x5D]
  | obj fields => do return 0x7B :: (← dumpsFields fields) ++ [0x7D]

def dumpsItems : List Json → Option Str
  | []           => some []
  | [v]          => dumps v
  | v :: w :: vs => do return (← dumps v) ++ style.item ++ (← dumpsItems (w :: vs))

def dumpsFields : List (Text × Json) → Option Str
  | []                  => some []
  | [(k, v)]            => do return escape k.val ++ style.key ++ (← dumps v)
  | (k, v) :: kv :: kvs => do
    return escape k.val ++ style.key ++ (← dumps v) ++ style.item ++ (← dumpsFields (kv :: kvs))

end

-- `sort_keys=True`, for a `dict` whose values contain no `dict`
def sortKeys (fields : List (Text × Json)) : List (Text × Json) :=
  fields.insertionSort fun a b => ¬b.fst.val < a.fst.val

end Json
