import Peerc.Lib.Str

namespace Bytes

def hexDigit (n : Nat) : CodePoint :=
  if n < 10 then Fin.ofNat _ (0x30 + n) else Fin.ofNat _ (0x57 + n)

-- `b.hex()`
def hex (bs : Bytes) : Str :=
  bs.flatMap fun b => [hexDigit (b.toNat / 16), hexDigit (b.toNat % 16)]

def hexValue (c : CodePoint) : Option Nat :=
  if 0x30 ≤ c.val ∧ c.val ≤ 0x39 then some (c.val - 0x30)
  else if 0x41 ≤ c.val ∧ c.val ≤ 0x46 then some (c.val - 0x37)
  else if 0x61 ≤ c.val ∧ c.val ≤ 0x66 then some (c.val - 0x57)
  else none

-- The six ASCII whitespace characters.
def isSpace (c : CodePoint) : Bool :=
  c.val == 0x20 || (0x09 ≤ c.val && c.val ≤ 0x0D)

-- `bytes.fromhex(s)`: whitespace is skipped between bytes, but not between the two digits of one.
def fromHex : Str → Option Bytes
  | []            => some []
  | [c]           => if isSpace c then some [] else none
  | c :: d :: s =>
    if isSpace c then fromHex (d :: s) else
      match hexValue c, hexValue d with
      | some hi, some lo => (fromHex s).map (UInt8.ofNat (16 * hi + lo) :: ·)
      | _,       _       => none

theorem hexValue_hexDigit : ∀ n < 16, hexValue (hexDigit n) = some n := by
  decide

theorem isSpace_hexDigit : ∀ n < 16, isSpace (hexDigit n) = false := by
  decide

theorem fromHex_hex (bs : Bytes) : fromHex (hex bs) = some bs := by
  induction bs
  case nil => rfl
  case cons b bs hi =>
    have hb := b.toNat_lt
    have h₁ : b.toNat / 16 < 16 := by omega
    have h₂ : b.toNat % 16 < 16 := by omega
    have hh : hex (b :: bs) = hexDigit (b.toNat / 16) :: hexDigit (b.toNat % 16) :: hex bs := rfl
    rw [hh, fromHex, hi, hexValue_hexDigit _ h₁, hexValue_hexDigit _ h₂,
      isSpace_hexDigit _ h₁]
    have he : 16 * (b.toNat / 16) + b.toNat % 16 = b.toNat := by omega
    simp [he]

theorem isAscii_of_isSpace {c : CodePoint} (h : isSpace c) : c.val < 128 := by
  simp [isSpace] at h
  omega

theorem isAscii_of_hexValue {c : CodePoint} {n : Nat} (h : hexValue c = some n) : c.val < 128 := by
  simp only [hexValue] at h
  split at h <;> [omega; (split at h <;> [omega; (split at h <;> [omega; cases h])])]

theorem fromHex_isAscii {s : Str} {bs : Bytes} (h : fromHex s = some bs) : s.IsAscii := by
  induction s using fromHex.induct generalizing bs
  case case1 => simp [Str.IsAscii]
  case case2 c hc =>
    simp only [Str.IsAscii, List.mem_singleton, forall_eq]
    exact isAscii_of_isSpace hc
  case case3 c hc => simp [fromHex, hc] at h
  case case4 c d s hc hi =>
    rw [fromHex, if_pos hc] at h
    exact List.forall_mem_cons.mpr ⟨isAscii_of_isSpace hc, hi h⟩
  case case5 c d s hc hi lo hlo hhi ih =>
    rw [fromHex, if_neg hc, hhi, hlo] at h
    simp only [Option.map_eq_some_iff] at h
    obtain ⟨_, h, -⟩ := h
    exact List.forall_mem_cons.mpr ⟨isAscii_of_hexValue hhi,
      List.forall_mem_cons.mpr ⟨isAscii_of_hexValue hlo, ih h⟩⟩
  case case6 c d s hc hn =>
    rw [fromHex, if_neg hc] at h
    split at h
    case h_1 hi lo hhi hlo => exact (hn _ _ hhi hlo).elim
    case h_2 => cases h

theorem hex_isAscii (bs : Bytes) : (hex bs).IsAscii :=
  fromHex_isAscii (fromHex_hex bs)

theorem zero_notMem_hex (bs : Bytes) : 0 ∉ hex bs := by
  have hd : ∀ n < 16, hexDigit n ≠ 0 := by decide
  intro h
  simp only [hex, List.mem_flatMap, List.mem_cons, List.not_mem_nil, or_false] at h
  obtain ⟨u, -, h | h⟩ := h
  · have := u.toNat_lt
    exact hd (u.toNat / 16) (by omega) h.symm
  · exact hd (u.toNat % 16) (by omega) h.symm

theorem hex_length (bs : Bytes) : bs.hex.length = 2 * bs.length := by
  induction bs
  case nil => rfl
  case cons b bs hi =>
    simp only [hex, List.flatMap_cons, List.length_append, List.length_cons, List.length_nil] at hi ⊢
    omega

theorem lower_hexDigit : ∀ n < 16, Str.lower [hexDigit n] = [hexDigit n] := by
  decide

theorem hex_lower (bs : Bytes) : bs.hex.lower = bs.hex := by
  induction bs
  case nil => rfl
  case cons b bs hi =>
    have hb := b.toNat_lt
    have h₁ := lower_hexDigit (b.toNat / 16) (by omega)
    have h₂ := lower_hexDigit (b.toNat % 16) (by omega)
    change Str.lower [_] ++ (Str.lower [_] ++ Str.lower (hex bs)) = _
    rw [h₁, h₂, hi]
    rfl

def hexText (bs : Bytes) : Text :=
  ⟨bs.hex, .of_encodable (hex_isAscii bs).encodable⟩

end Bytes

namespace Base64

def digit (n : Nat) : CodePoint :=
  if n < 26 then Fin.ofNat _ (0x41 + n)
  else if n < 52 then Fin.ofNat _ (0x61 + (n - 26))
  else if n < 62 then Fin.ofNat _ (0x30 + (n - 52))
  else if n = 62 then 0x2B
  else 0x2F

def pad : CodePoint := 0x3D

-- `base64.b64encode(b).decode("ascii")`
def encode : Bytes → Str
  | []               => []
  | [a]              => [digit (a.toNat / 4), digit (a.toNat % 4 * 16), pad, pad]
  | [a, b]           =>
    [digit (a.toNat / 4), digit (a.toNat % 4 * 16 + b.toNat / 16), digit (b.toNat % 16 * 4), pad]
  | a :: b :: c :: s =>
    digit (a.toNat / 4) :: digit (a.toNat % 4 * 16 + b.toNat / 16) ::
    digit (b.toNat % 16 * 4 + c.toNat / 64) :: digit (c.toNat % 64) :: encode s

theorem isAscii_digit (n : Nat) : (digit n).val < 128 := by
  simp only [digit]
  split
  · simp only [Fin.ofNat]
    omega
  · split
    · simp only [Fin.ofNat]
      omega
    · split
      · simp only [Fin.ofNat]
        omega
      · split <;> decide

theorem encode_isAscii (bs : Bytes) : (encode bs).IsAscii := by
  fun_induction encode bs
  case case1 => exact fun _ h => nomatch h
  case case2 | case3 =>
    simp only [Str.isAscii_cons, isAscii_digit, true_and]
    decide
  case case4 hi => simpa only [Str.isAscii_cons, isAscii_digit, true_and] using hi

theorem digit_ne_zero (n : Nat) : digit n ≠ 0 := by
  unfold digit
  split_ifs <;> simp only [ne_eq, Fin.ext_iff, Fin.ofNat, Fin.val_zero] <;> omega

theorem zero_notMem_encode (bs : Bytes) : 0 ∉ encode bs := by
  fun_induction encode bs
  case case1 => exact List.not_mem_nil
  case case2 | case3 =>
    simp only [List.mem_cons, (digit_ne_zero _).symm, false_or]
    decide
  case case4 hi => simpa only [List.mem_cons, (digit_ne_zero _).symm, false_or] using hi

def encodeText (bs : Bytes) : Text :=
  ⟨encode bs, .of_encodable (encode_isAscii bs).encodable⟩

def value (c : CodePoint) : Option Nat :=
  if 0x41 ≤ c.val ∧ c.val ≤ 0x5A then some (c.val - 0x41)
  else if 0x61 ≤ c.val ∧ c.val ≤ 0x7A then some (c.val - 0x61 + 26)
  else if 0x30 ≤ c.val ∧ c.val ≤ 0x39 then some (c.val - 0x30 + 52)
  else if c.val = 0x2B then some 62
  else if c.val = 0x2F then some 63
  else none

-- The non-strict decoder: characters outside the alphabet are skipped, and a pad character ends the
-- input once it completes a quadruple of which at least two digits were read. `quad` is the position
-- in the quadruple, `left` the bits carried over, `pads` the pad characters since the last digit.
def decode.go (quad left pads : Nat) : Str → Option Bytes
  | []     => if quad = 0 then some [] else none
  | c :: s =>
    if c = pad then
      if 2 ≤ quad then
        if 4 ≤ quad + pads + 1 then some [] else go quad left (pads + 1) s
      else go quad left pads s
    else
      match value c with
      | none   => go quad left pads s
      | some v =>
        match quad with
        | 0 => go 1 v 0 s
        | 1 => (go 2 (v % 16) 0 s).map (UInt8.ofNat (left * 4 + v / 16) :: ·)
        | 2 => (go 3 (v % 4) 0 s).map (UInt8.ofNat (left * 16 + v / 4) :: ·)
        | _ => (go 0 0 0 s).map (UInt8.ofNat (left * 64 + v) :: ·)

-- `base64.b64decode(s)`
def decode (s : Str) : Option Bytes :=
  if s.IsAscii then decode.go 0 0 0 s else none

-- `base64.b64decode(s, validate=True)`, as of Python 3.11: the digits come first, and what follows are the
-- pad characters that complete the last quadruple. Where it is complete, any number of them is skipped.
def decodeStrict (s : Str) : Option Bytes :=
  let digits := s.takeWhile fun c => (value c).isSome
  let rest := s.drop digits.length
  if (digits.length % 4 ≠ 1 ∧ rest = List.replicate ((4 - digits.length % 4) % 4) pad) ∨
      (digits ≠ [] ∧ digits.length % 4 = 0 ∧ rest.all (· = pad)) then decode s
  else none

theorem isAscii_of_decode {s : Str} {bs : Bytes} (h : decode s = some bs) : s.IsAscii := by
  by_contra hc
  simp [decode, hc] at h

theorem value_digit : ∀ n < 64, value (digit n) = some n := by
  decide

theorem digit_ne_pad : ∀ n < 64, digit n ≠ pad := by
  decide

section

variable {n left pads : Nat} {s : Str} (hn : n < 64)

include hn

theorem go_first : decode.go 0 left pads (digit n :: s) = decode.go 1 n 0 s := by
  simp only [decode.go, if_neg (digit_ne_pad n hn), value_digit n hn]

theorem go_second : decode.go 1 left pads (digit n :: s) =
    (decode.go 2 (n % 16) 0 s).map (UInt8.ofNat (left * 4 + n / 16) :: ·) := by
  rw [decode.go, if_neg (digit_ne_pad n hn), value_digit n hn]
  rfl

theorem go_third : decode.go 2 left pads (digit n :: s) =
    (decode.go 3 (n % 4) 0 s).map (UInt8.ofNat (left * 16 + n / 4) :: ·) := by
  rw [decode.go, if_neg (digit_ne_pad n hn), value_digit n hn]
  rfl

theorem go_fourth : decode.go 3 left pads (digit n :: s) =
    (decode.go 0 0 0 s).map (UInt8.ofNat (left * 64 + n) :: ·) := by
  rw [decode.go, if_neg (digit_ne_pad n hn), value_digit n hn]
  rfl

end

theorem decode_encode (bs : Bytes) : decode (encode bs) = some bs := by
  rw [decode, if_pos (encode_isAscii bs)]
  fun_induction encode bs
  case case1 => rfl
  case case2 a =>
    have ha := a.toNat_lt
    have h : a.toNat / 4 * 4 + a.toNat % 4 * 16 / 16 = a.toNat := by omega
    rw [go_first (by omega), go_second (by omega), h, UInt8.ofNat_toNat]
    rfl
  case case3 a b =>
    have ha := a.toNat_lt
    have hb := b.toNat_lt
    have h₁ : a.toNat / 4 * 4 + (a.toNat % 4 * 16 + b.toNat / 16) / 16 = a.toNat := by omega
    have h₂ : (a.toNat % 4 * 16 + b.toNat / 16) % 16 * 16 + b.toNat % 16 * 4 / 4 = b.toNat := by omega
    rw [go_first (by omega), go_second (by omega), go_third (by omega), h₁, h₂, UInt8.ofNat_toNat,
      UInt8.ofNat_toNat]
    rfl
  case case4 a b c s hi =>
    have ha := a.toNat_lt
    have hb := b.toNat_lt
    have hc := c.toNat_lt
    have h₁ : a.toNat / 4 * 4 + (a.toNat % 4 * 16 + b.toNat / 16) / 16 = a.toNat := by omega
    have h₂ : (a.toNat % 4 * 16 + b.toNat / 16) % 16 * 16 + (b.toNat % 16 * 4 + c.toNat / 64) / 4 = b.toNat := by
      omega
    have h₃ : (b.toNat % 16 * 4 + c.toNat / 64) % 4 * 64 + c.toNat % 64 = c.toNat := by omega
    rw [go_first (by omega), go_second (by omega), go_third (by omega), go_fourth (by omega), h₁, h₂, h₃, hi]
    simp only [UInt8.ofNat_toNat, Option.map_some]

theorem value_digit_isSome {n : Nat} (h : n < 64) : (value (digit n)).isSome := by
  rw [value_digit n h]
  rfl

-- The digits of a text that was written, and the pad characters that complete the last quadruple
theorem exists_digits (bs : Bytes) : ∃ ds : Str, (∀ c ∈ ds, (value c).isSome) ∧ ds.length % 4 ≠ 1 ∧
    encode bs = ds ++ List.replicate ((4 - ds.length % 4) % 4) pad := by
  fun_induction encode bs
  case case1 => exact ⟨[], List.forall_mem_nil _, by decide, rfl⟩
  case case2 a =>
    have ha := a.toNat_lt
    refine ⟨[_, _], ?_, by simp, rfl⟩
    simp only [List.forall_mem_cons]
    exact ⟨value_digit_isSome (by omega), value_digit_isSome (by omega), List.forall_mem_nil _⟩
  case case3 a b =>
    have ha := a.toNat_lt
    have hb := b.toNat_lt
    refine ⟨[_, _, _], ?_, by simp, rfl⟩
    simp only [List.forall_mem_cons]
    exact ⟨value_digit_isSome (by omega), value_digit_isSome (by omega), value_digit_isSome (by omega),
      List.forall_mem_nil _⟩
  case case4 a b c s hi =>
    have ha := a.toNat_lt
    have hb := b.toNat_lt
    have hc := c.toNat_lt
    obtain ⟨ds, hv, hl, he⟩ := hi
    have hm : (ds.length + 4) % 4 = ds.length % 4 := Nat.add_mod_right _ _
    refine ⟨digit (a.toNat / 4) :: digit (a.toNat % 4 * 16 + b.toNat / 16) ::
      digit (b.toNat % 16 * 4 + c.toNat / 64) :: digit (c.toNat % 64) :: ds, ?_, ?_, ?_⟩
    · simp only [List.forall_mem_cons]
      exact ⟨value_digit_isSome (by omega), value_digit_isSome (by omega), value_digit_isSome (by omega),
        value_digit_isSome (by omega), hv⟩
    · simpa only [List.length_cons, hm] using hl
    · simp only [he, List.length_cons, hm, List.cons_append]

theorem decodeStrict_encode (bs : Bytes) : decodeStrict (encode bs) = some bs := by
  obtain ⟨ds, hv, hl, he⟩ := exists_digits bs
  have hp : (List.replicate ((4 - ds.length % 4) % 4) pad).takeWhile (fun c => (value c).isSome) = [] := by
    cases (4 - ds.length % 4) % 4 <;> rfl
  have ht : (encode bs).takeWhile (fun c => (value c).isSome) = ds := by
    rw [he, List.takeWhile_append_of_pos hv, hp, List.append_nil]
  have hd : (encode bs).drop ds.length = List.replicate ((4 - ds.length % 4) % 4) pad := by
    rw [he, List.drop_left]
  rw [decodeStrict, ht, hd, if_pos (.inl ⟨hl, rfl⟩), decode_encode]

end Base64
