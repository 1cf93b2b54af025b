import Peerc.Lib.Json.Basic

namespace Str

-- `b.decode("utf-8")`: overlong forms, surrogates and values beyond U+10FFFF are refused.
def decodeUtf8 : Bytes → Option Str
  | []     => some []
  | a :: s =>
    if a.toNat < 0x80 then (decodeUtf8 s).map (Fin.ofNat _ a.toNat :: ·)
    else if a.toNat < 0xC2 then none
    else if a.toNat < 0xE0 then
      match s with
      | b :: s => if isTail b then (decodeUtf8 s).map (cp 0xC0 0 [a, b] :: ·) else none
      | _      => none
    else if a.toNat < 0xF0 then
      match s with
      | b :: c :: s =>
        let p := cp 0xE0 0 [a, b, c]
        if isTail b ∧ isTail c ∧ 0x800 ≤ p.val ∧ ¬p.IsSurrogate then (decodeUtf8 s).map (p :: ·)
        else none
      | _           => none
    else if a.toNat < 0xF5 then
      match s with
      | b :: c :: d :: s =>
        let n := value 0xF0 0 [a, b, c, d]
        if isTail b ∧ isTail c ∧ isTail d ∧ 0x10000 ≤ n ∧ n < 0x110000 then
          (decodeUtf8 s).map (Fin.ofNat _ n :: ·)
        else none
      | _                => none
    else none
where
  isTail (b : UInt8) : Bool := 0x80 ≤ b.toNat && b.toNat < 0xC0
  -- The bits of a sequence, without the marker bits of its first byte and of the bytes after it
  value (marker acc : Nat) : Bytes → Nat
    | []     => acc
    | b :: s => value 0x80 (acc * 64 + (b.toNat - marker)) s
  cp (marker acc : Nat) (s : Bytes) : CodePoint := Fin.ofNat _ (value marker acc s)

theorem decodeUtf8_ascii {s : Str} {b : Bytes} (hs : s.IsAscii) (h : s.encodeUtf8 = some b) :
    decodeUtf8 b = some s := by
  simp only [encodeUtf8, if_pos hs.encodable, Option.some.injEq] at h
  subst h
  induction s
  case nil => rfl
  case cons c s hi =>
    obtain ⟨hc, hs⟩ := isAscii_cons.mp hs
    have hn : (UInt8.ofNat c.val).toNat = c.val := by
      simp only [UInt8.toNat_ofNat']
      omega
    have hf : (Fin.ofNat 0x110000 c.val : CodePoint) = c := Fin.ofNat_val_eq_self c
    rw [List.flatMap_cons, CodePoint.utf8, if_pos hc, List.singleton_append, decodeUtf8.eq_def]
    simp only [hn, if_pos hc, hi hs, Option.map_some, hf]

-- Every high surrogate right before a low one is joined with it.
def joinPairs : Str → Str
  | []          => []
  | [c]         => [c]
  | c :: d :: s =>
    if c.IsHigh ∧ d.IsLow then
      Fin.ofNat _ (0x10000 + (c.val - 0xD800) * 0x400 + (d.val - 0xDC00)) :: joinPairs s
    else c :: joinPairs (d :: s)

theorem head_joinPairs {c d : CodePoint} {s : Str} (h : (joinPairs (c :: s)).head? = some d) :
    d = c ∨ ¬d.IsLow := by
  cases s
  case nil => exact .inl <| by simpa [joinPairs] using h.symm
  case cons e s =>
    rw [joinPairs] at h
    split at h
    case isTrue hp =>
      refine .inr fun hl => ?_
      have := hp.left.right
      have := hp.right.right
      have := hl.right
      simp only [List.head?_cons, Option.some.injEq] at h
      subst h
      simp only [Fin.val_ofNat] at this
      omega
    case isFalse => exact .inl <| by simpa using h.symm

theorem joinPairs_noPair (s : Str) : NoPair (joinPairs s) := by
  induction s using joinPairs.induct
  case case1 | case2 => trivial
  case case3 c d s hp hi =>
    rw [joinPairs, if_pos hp]
    cases hj : joinPairs s
    case nil => trivial
    case cons e t =>
      refine ⟨fun h => ?_, hj ▸ hi⟩
      have := hp.left.right
      have := hp.right.right
      have := h.left.right
      simp only [Fin.val_ofNat] at this
      omega
  case case4 c d s hp hi =>
    rw [joinPairs, if_neg hp]
    cases hj : joinPairs (d :: s)
    case nil => trivial
    case cons e t =>
      refine ⟨fun h => ?_, hj ▸ hi⟩
      cases head_joinPairs (c := d) (s := s) (d := e) (by rw [hj]; rfl)
      case inl he => exact hp (he ▸ h)
      case inr hl => exact hl h.right

end Str

def Text.join (s : Str) : Text :=
  ⟨s.joinPairs, s.joinPairs_noPair⟩

namespace Json

-- `valueError`: an integer literal with too many digits
inductive LoadsError
  | decodeError
  | valueError
  deriving DecidableEq

def isWs (c : CodePoint) : Bool :=
  c == 0x20 || c == 0x09 || c == 0x0A || c == 0x0D

def skipWs (s : Str) : Str :=
  s.dropWhile isWs

def unescape (c : CodePoint) : Option CodePoint :=
  if c = 0x22 ∨ c = 0x5C ∨ c = 0x2F then some c
  else if c = 0x62 then some 0x08
  else if c = 0x66 then some 0x0C
  else if c = 0x6E then some 0x0A
  else if c = 0x72 then some 0x0D
  else if c = 0x74 then some 0x09
  else none

-- The rest of a string literal after its opening quote: the code units it denotes, and what follows
def scanUnits : Str → Option (Str × Str)
  | []     => none
  | c :: s =>
    if c = 0x22 then some ([], s)
    else if c = 0x5C then
      match s with
      | e :: s =>
        if e = 0x75 then
          match s with
          | h₁ :: h₂ :: h₃ :: h₄ :: s => do
            let d₁ ← Bytes.hexValue h₁
            let d₂ ← Bytes.hexValue h₂
            let d₃ ← Bytes.hexValue h₃
            let d₄ ← Bytes.hexValue h₄
            let (us, rest) ← scanUnits s
            return (Fin.ofNat _ (((d₁ * 16 + d₂) * 16 + d₃) * 16 + d₄) :: us, rest)
          | _ => none
        else do
          let u ← unescape e
          let (us, rest) ← scanUnits s
          return (u :: us, rest)
      | [] => none
    else if c.val < 0x20 then none
    else do
      let (us, rest) ← scanUnits s
      return (c :: us, rest)

def scanString (s : Str) : Except LoadsError (Text × Str) :=
  match scanUnits s with
  | some (us, rest) => .ok (.join us, rest)
  | none            => .error .decodeError

-- The integer part of a number: a zero, or digits that do not start with a zero
def scanWhole (s : Str) : Option (Str × Str) :=
  match s with
  | c :: rest =>
    if c = 0x30 then some ([c], rest)
    else if isDigit c then some (s.span isDigit)
    else none
  | [] => none

def scanFraction (s : Str) : Str × Str :=
  match s with
  | c :: d :: rest =>
    if c = 0x2E ∧ isDigit d then
      let (ds, rest) := (d :: rest).span isDigit
      (c :: ds, rest)
    else ([], s)
  | _ => ([], s)

def scanExponent (s : Str) : Str × Str :=
  match s with
  | c :: rest =>
    if c = 0x65 ∨ c = 0x45 then
      let (sign, ds) := match rest with
        | d :: tl => if d = 0x2B ∨ d = 0x2D then ([d], tl) else ([], rest)
        | []      => ([], rest)
      match ds.span isDigit with
      | ([], _)    => ([], s)
      | (ds, rest) => (c :: sign ++ ds, rest)
    else ([], s)
  | [] => ([], s)

def scanNumber (F : FloatFormat) (s : Str) : Except LoadsError (Json × Str) :=
  let (sign, tl) := match s with
    | c :: tl => if c = 0x2D then ([c], tl) else ([], s)
    | []      => ([], s)
  match scanWhole tl with
  | none             => .error .decodeError
  | some (whole, tl) =>
    let (fraction, tl) := scanFraction tl
    let (exponent, tl) := scanExponent tl
    if fraction = [] ∧ exponent = [] then
      if whole.length ≤ maxStrDigits then
        .ok (.int (if sign = [] then ofDecimal whole else -ofDecimal whole), tl)
      else .error .valueError
    else .ok (.float (F.parse (sign ++ whole ++ fraction ++ exponent)), tl)

def literals : List (Str × Json) := [
  (Str.ofString "null", .null),
  (Str.ofString "true", .bool true),
  (Str.ofString "false", .bool false),
  (Str.ofString "NaN", .float .nan),
  (Str.ofString "Infinity", .float .infinity),
  (Str.ofString "-Infinity", .float .negInfinity)
]

def scanAtom (F : FloatFormat) (s : Str) : Except LoadsError (Json × Str) :=
  match literals.find? (·.fst.isPrefixOf s) with
  | some (word, v) => .ok (v, s.drop word.length)
  | none           => scanNumber F s

variable (F : FloatFormat)

mutual

-- The value at the start of the text, and what follows it. `fuel` bounds the nesting.
def scanOnce : (fuel : Nat) → Str → Except LoadsError (Json × Str)
  | 0,        _       => .error .decodeError
  | _ + 1,    []      => .error .decodeError
  | fuel + 1, c :: tl =>
    if c = 0x22 then do
      let (s, rest) ← scanString tl
      return (.str s, rest)
    else if c = 0x7B then
      match skipWs tl with
      | []     => .error .decodeError
      | d :: s => if d = 0x7D then .ok (.obj [], s) else scanFields fuel [] (d :: s)
    else if c = 0x5B then
      match skipWs tl with
      | []     => .error .decodeError
      | d :: s => if d = 0x5D then .ok (.arr [], s) else scanItems fuel [] (d :: s)
    else scanAtom F (c :: tl)

def scanItems : (fuel : Nat) → List Json → Str → Except LoadsError (Json × Str)
  | 0,        _,   _ => .error .decodeError
  | fuel + 1, acc, s => do
    let (v, rest) ← scanOnce fuel s
    match skipWs rest with
    | []     => .error .decodeError
    | c :: s =>
      if c = 0x5D then .ok (.arr (acc ++ [v]), s)
      else if c = 0x2C then scanItems fuel (acc ++ [v]) (skipWs s)
      else .error .decodeError

def scanFields : (fuel : Nat) → List (Text × Json) → Str → Except LoadsError (Json × Str)
  | 0,        _,   _       => .error .decodeError
  | _ + 1,    _,   []      => .error .decodeError
  | fuel + 1, acc, q :: s => do
    if q ≠ 0x22 then .error .decodeError else
    let (key, rest) ← scanString s
    match skipWs rest with
    | []     => .error .decodeError
    | c :: s =>
      if c ≠ 0x3A then .error .decodeError else
      let (v, rest) ← scanOnce fuel (skipWs s)
      match skipWs rest with
      | []     => .error .decodeError
      | c :: s =>
        if c = 0x7D then .ok (.obj (setItem key v acc), s)
        else if c = 0x2C then scanFields fuel (setItem key v acc) (skipWs s)
        else .error .decodeError

end

-- `json.loads`
def loads (s : Str) : Except LoadsError Json :=
  if s.head? = some 0xFEFF then .error .decodeError else
  match scanOnce F (s.length + 1) (skipWs s) with
  | .error e      => .error e
  | .ok (v, rest) => if skipWs rest = [] then .ok v else .error .decodeError

end Json
