import Peerc.Lib.Encoding
import Peerc.Lib.Path

-- The texts of UUIDs, as the standard library reads and writes them

namespace Uuid

def dash : CodePoint := 0x2D

-- Groups of 8, 4, 4, 4 and 12 digits
def group (hex : Str) : Str :=
  hex.take 8 ++ dash :: ((hex.drop 8).take 4 ++ dash :: ((hex.drop 12).take 4 ++
    dash :: ((hex.drop 16).take 4 ++ dash :: hex.drop 20)))

-- `str(uuid.UUID(bytes=b))`
def text (b : Bytes) : Str :=
  group b.hex

-- `s.replace(old, "")`
def removeAll (old : Str) : Str → Str
  | []     => []
  | c :: s =>
    if old.isPrefixOf (c :: s) then removeAll old (s.drop (old.length - 1)) else c :: removeAll old s
termination_by s => s.length

-- `s.strip(chars)`
def strip (p : CodePoint → Bool) (s : Str) : Str :=
  ((s.dropWhile p).reverse.dropWhile p).reverse

-- The blanks that `int` skips, after those of other scripts were replaced
def isBlank (c : CodePoint) : Bool :=
  c.val = 0x20 ∨ (0x09 ≤ c.val ∧ c.val ≤ 0x0D)

-- The zeros of the scripts with decimal digits. The other nine digits come after each of them.
def zeros : List Nat := [
  0x660, 0x6F0, 0x7C0, 0x966, 0x9E6, 0xA66, 0xAE6, 0xB66, 0xBE6, 0xC66, 0xCE6, 0xD66, 0xDE6, 0xE50, 0xED0,
  0xF20, 0x1040, 0x1090, 0x17E0, 0x1810, 0x1946, 0x19D0, 0x1A80, 0x1A90, 0x1B50, 0x1BB0, 0x1C40, 0x1C50,
  0xA620, 0xA8D0, 0xA900, 0xA9D0, 0xA9F0, 0xAA50, 0xABF0, 0xFF10, 0x104A0, 0x10D30, 0x11066, 0x110F0,
  0x11136, 0x111D0, 0x112F0, 0x11450, 0x114D0, 0x11650, 0x116C0, 0x11730, 0x118E0, 0x11950, 0x11C50,
  0x11D50, 0x11DA0, 0x16A60, 0x16AC0, 0x16B50, 0x1D7CE, 0x1D7D8, 0x1D7E2, 0x1D7EC, 0x1D7F6, 0x1E140,
  0x1E2F0, 0x1E950, 0x1FBF0
]

-- What `int` makes of a character before it reads the digits. A question mark is not one.
def toAscii (c : CodePoint) : CodePoint :=
  if c.val < 0x80 then c
  else if Str.isWhitespace c then 0x20
  else
    match zeros.find? fun nought => nought ≤ c.val ∧ c.val < nought + 10 with
    | some nought => Fin.ofNat _ (0x30 + (c.val - nought))
    | none        => 0x3F

def underscore : CodePoint := 0x5F

-- Digits after the first one, with single underscores between them
def digits (acc : Nat) : Str → Option Nat
  | []     => some acc
  | [c]    => (Bytes.hexValue c).map (16 * acc + ·)
  | c :: d :: s =>
    match Bytes.hexValue c with
    | some v => digits (16 * acc + v) (d :: s)
    | none   =>
      if c = underscore then
        match Bytes.hexValue d with
        | some v => digits (16 * acc + v) s
        | none   => none
      else none

def number : Str → Option Nat
  | []     => none
  | c :: s => Bytes.hexValue c >>= (digits · s)

-- The `0x` in front of the digits, after which there may be an underscore
def dropMark : Str → Str
  | 0x30 :: c :: s =>
    if c = 0x78 ∨ c = 0x58 then
      match s with
      | 0x5F :: s => s
      | s         => s
    else 0x30 :: c :: s
  | s => s

-- `int(s, 16)`
def int16 (s : Str) : Option Int :=
  match strip isBlank (s.map toAscii) with
  | 0x2D :: s => (number (dropMark s)).map (-Int.ofNat ·)
  | 0x2B :: s => (number (dropMark s)).map Int.ofNat
  | s         => (number (dropMark s)).map Int.ofNat

-- `uuid.UUID(s).bytes`
def parse (s : Str) : Option Bytes := do
  let s := removeAll (Str.ofString "uuid:") (removeAll (Str.ofString "urn:") s)
  let hex := (strip (fun c => c = 0x7B ∨ c = 0x7D) s).filter (· ≠ dash)
  if hex.length ≠ 32 then none
  let n ← int16 hex
  if n < 0 ∨ 2 ^ 128 ≤ n then none
  return Bytes.ofNatBE 16 n.toNat

-- What was written is read back.

variable {s old : Str} {p : CodePoint → Bool} {b : Bytes} {c : CodePoint}

theorem removeAll_of_head_notMem (h : c ∉ s) : removeAll (c :: old) s = s := by
  induction s
  case nil => rw [removeAll]
  case cons d s hi =>
    obtain ⟨hd, hs⟩ := not_or.mp (mt List.mem_cons.mpr h)
    have hp : ¬(c :: old).isPrefixOf (d :: s) := by simp [List.isPrefixOf, hd]
    rw [removeAll, if_neg hp, hi hs]

theorem strip_of_forall_not (h : ∀ c ∈ s, ¬p c) : strip p s = s := by
  have hd {t : Str} (ht : ∀ c ∈ t, ¬p c) : t.dropWhile p = t := by
    cases t
    case nil => rfl
    case cons c t => rw [List.dropWhile_cons_of_neg (ht c List.mem_cons_self)]
  rw [strip, hd h, hd (fun c hc => h c (List.mem_reverse.mp hc)), List.reverse_reverse]

-- The digits of a text that was written are the sixteen of `hexDigit`.
theorem exists_of_mem_hex (h : c ∈ b.hex) : ∃ n < 16, c = Bytes.hexDigit n := by
  simp only [Bytes.hex, List.mem_flatMap, List.mem_cons, List.not_mem_nil, or_false] at h
  obtain ⟨u, -, rfl | rfl⟩ := h
  · have := u.toNat_lt
    exact ⟨u.toNat / 16, by omega, rfl⟩
  · exact ⟨u.toNat % 16, by omega, rfl⟩

theorem forall_mem_hex {q : CodePoint → Prop} (h : ∀ n < 16, q (Bytes.hexDigit n)) :
    ∀ c ∈ b.hex, q c := by
  intro c hc
  obtain ⟨n, hn, rfl⟩ := exists_of_mem_hex hc
  exact h n hn

theorem forall_mem_text {q : CodePoint → Prop} (hd : q dash) (h : ∀ n < 16, q (Bytes.hexDigit n)) :
    ∀ c ∈ text b, q c := by
  have hx := forall_mem_hex (b := b) h
  have ht {i j : Nat} : ∀ c ∈ (b.hex.drop i).take j, q c :=
    fun c hc => hx c (List.mem_of_mem_drop (List.mem_of_mem_take hc))
  simp only [text, group, List.forall_mem_append, List.forall_mem_cons]
  exact ⟨fun c hc => hx c (List.mem_of_mem_take hc), hd, ht, hd, ht, hd, ht, hd,
    fun c hc => hx c (List.mem_of_mem_drop hc)⟩

theorem text_isAscii (b : Bytes) : (text b).IsAscii :=
  forall_mem_text (by decide) (by decide)

theorem filter_text : (text b).filter (· ≠ dash) = b.hex := by
  have hx : ∀ c ∈ b.hex, c ≠ dash := forall_mem_hex (by decide)
  have hf {t : Str} (ht : ∀ c ∈ t, c ∈ b.hex) : t.filter (· ≠ dash) = t :=
    List.filter_eq_self.mpr fun c hc => decide_eq_true (hx c (ht c hc))
  have h₁ {i j : Nat} := hf (t := (b.hex.drop i).take j)
    fun c hc => List.mem_of_mem_drop (List.mem_of_mem_take hc)
  have h₂ {j : Nat} := hf (t := b.hex.take j) fun c hc => List.mem_of_mem_take hc
  have h₃ {i : Nat} := hf (t := b.hex.drop i) fun c hc => List.mem_of_mem_drop hc
  have hdash : decide (dash ≠ dash) = false := by decide
  have hs (i : Nat) : (b.hex.drop i).take 4 ++ b.hex.drop (i + 4) = b.hex.drop i := by
    rw [← List.drop_drop, List.take_append_drop]
  simp only [text, group, List.filter_append, List.filter_cons, hdash, h₁, h₂, h₃, Bool.false_eq_true, if_false]
  rw [hs 16, hs 12, hs 8, List.take_append_drop]

theorem digits_cons {acc v : Nat} (h : Bytes.hexValue c = some v) :
    digits acc (c :: s) = digits (16 * acc + v) s := by
  cases s
  case nil => simp [digits, h]
  case cons d s => simp only [digits, h]

theorem hex_cons (u : UInt8) (bs : Bytes) :
    Bytes.hex (u :: bs) = Bytes.hexDigit (u.toNat / 16) :: Bytes.hexDigit (u.toNat % 16) :: bs.hex :=
  rfl

theorem hexValues (u : UInt8) : Bytes.hexValue (Bytes.hexDigit (u.toNat / 16)) = some (u.toNat / 16) ∧
    Bytes.hexValue (Bytes.hexDigit (u.toNat % 16)) = some (u.toNat % 16) := by
  have := u.toNat_lt
  exact ⟨Bytes.hexValue_hexDigit _ (by omega), Bytes.hexValue_hexDigit _ (by omega)⟩

theorem digits_hex (bs : Bytes) (acc : Nat) :
    digits acc bs.hex = some (bs.foldl (fun acc b => acc * 256 + b.toNat) acc) := by
  induction bs generalizing acc
  case nil => rfl
  case cons u bs hi =>
    obtain ⟨h₁, h₂⟩ := hexValues u
    have ha : 16 * (16 * acc + u.toNat / 16) + u.toNat % 16 = acc * 256 + u.toNat := by omega
    rw [hex_cons, digits_cons h₁, digits_cons h₂, hi, ha, List.foldl_cons]

theorem number_hex (h : b ≠ []) : number b.hex = some b.toNatBE := by
  cases b
  case nil => exact absurd rfl h
  case cons u bs =>
    obtain ⟨h₁, h₂⟩ := hexValues u
    have ha : 16 * (u.toNat / 16) + u.toNat % 16 = 0 * 256 + u.toNat := by omega
    rw [hex_cons, number, h₁, Option.bind_eq_bind, Option.bind_some, digits_cons h₂, digits_hex, ha]
    rfl

theorem dropMark_hex : dropMark b.hex = b.hex := by
  cases b
  case nil => rfl
  case cons u bs =>
    have hx : ∀ n < 16, Bytes.hexDigit n ≠ 0x78 ∧ Bytes.hexDigit n ≠ 0x58 := by decide
    have hn := hx (u.toNat % 16) (by omega)
    rw [hex_cons]
    unfold dropMark
    split
    case h_1 h =>
      have hc := (List.cons.inj (List.cons.inj h).right).left
      rw [if_neg (hc ▸ not_or.mpr hn), h]
    case h_2 => rfl

theorem int16_hex (h : b ≠ []) : int16 b.hex = some (b.toNatBE : Int) := by
  have hx : ∀ c ∈ b.hex, toAscii c = id c := forall_mem_hex (by decide)
  have ha : b.hex.map toAscii = b.hex := (List.map_congr_left hx).trans (List.map_id _)
  have hs : strip isBlank b.hex = b.hex := strip_of_forall_not (forall_mem_hex (by decide))
  have hm : ∀ c ∈ b.hex, c ≠ 0x2D ∧ c ≠ 0x2B := forall_mem_hex (by decide)
  rw [int16, ha, hs]
  split
  case h_1 h => exact absurd rfl (hm _ (h ▸ List.mem_cons_self)).left
  case h_2 h => exact absurd rfl (hm _ (h ▸ List.mem_cons_self)).right
  case h_3 => rw [dropMark_hex, number_hex h, Option.map_some, Int.ofNat_eq_natCast]

theorem parse_text (h : b.length = 16) : parse (text b) = some b := by
  have hne : b ≠ [] := List.ne_nil_of_length_eq_add_one h
  have hu : (0x75 : CodePoint) ∉ text b := fun hc => absurd rfl (forall_mem_text
    (q := (· ≠ 0x75)) (by decide) (by decide) _ hc)
  have hb : ∀ c ∈ text b, ¬decide (c = 0x7B ∨ c = 0x7D) := forall_mem_text (by decide) (by decide)
  have hr₁ : removeAll (Str.ofString "urn:") (text b) = text b := removeAll_of_head_notMem hu
  have hr₂ : removeAll (Str.ofString "uuid:") (text b) = text b := removeAll_of_head_notMem hu
  have hl : b.hex.length = 32 := by rw [Bytes.hex_length, h]
  have hlt := b.toNatBE_lt
  rw [h] at hlt
  have hv := Bytes.ofNatBE_toNatBE b
  rw [h] at hv
  simp only [parse, hr₁, hr₂, strip_of_forall_not hb, filter_text, hl, int16_hex hne]
  simpa [hv] using hlt

-- The canonical text form: digits in lower case, in groups

def isDigit (c : CodePoint) : Bool :=
  (0x30 ≤ c.val && c.val ≤ 0x39) || (0x61 ≤ c.val && c.val ≤ 0x66)

def IsCanonical (s : Str) : Prop :=
  ∃ hex : Str, hex.length = 32 ∧ (∀ c ∈ hex, isDigit c) ∧ s = group hex

theorem exists_hexDigit (h : isDigit c) : ∃ n < 16, c = Bytes.hexDigit n := by
  simp only [isDigit, Bool.or_eq_true, Bool.and_eq_true, decide_eq_true_eq] at h
  rcases h with h | h
  · refine ⟨c.val - 0x30, by omega, Fin.ext ?_⟩
    rw [Bytes.hexDigit, if_pos (by omega), Fin.val_ofNat]
    omega
  · refine ⟨c.val - 0x57, by omega, Fin.ext ?_⟩
    rw [Bytes.hexDigit, if_neg (by omega), Fin.val_ofNat]
    omega

theorem exists_hex {n : Nat} (hl : s.length = 2 * n) (h : ∀ c ∈ s, isDigit c) :
    ∃ b : Bytes, b.length = n ∧ b.hex = s := by
  induction n generalizing s
  case zero => exact ⟨[], rfl, (List.length_eq_zero_iff.mp hl).symm⟩
  case succ n hi =>
    rcases s with _ | ⟨c, _ | ⟨d, s⟩⟩
    · exact absurd hl (by simp)
    · exact absurd hl (by simp only [List.length_singleton]; omega)
    · simp only [List.forall_mem_cons] at h
      obtain ⟨hc, hd, hs⟩ := h
      obtain ⟨u, hu, rfl⟩ := exists_hexDigit hc
      obtain ⟨v, hv, rfl⟩ := exists_hexDigit hd
      obtain ⟨b, hb, rfl⟩ := hi (by simp only [List.length_cons] at hl; omega) hs
      have hn : (UInt8.ofNat (16 * u + v)).toNat = 16 * u + v := by
        rw [UInt8.toNat_ofNat', Nat.mod_eq_of_lt (by omega)]
      refine ⟨UInt8.ofNat (16 * u + v) :: b, by rw [List.length_cons, hb], ?_⟩
      rw [hex_cons, hn, Nat.mul_add_div (by decide), Nat.div_eq_of_lt hv, Nat.add_zero, Nat.mul_add_mod,
        Nat.mod_eq_of_lt hv]

-- The canonical texts are those that are written.
theorem isCanonical_iff : IsCanonical s ↔ ∃ b : Bytes, b.length = 16 ∧ s = text b := by
  constructor
  case mp =>
    rintro ⟨hex, hl, hd, rfl⟩
    obtain ⟨b, hb, rfl⟩ := exists_hex (n := 16) hl hd
    exact ⟨b, hb, rfl⟩
  case mpr =>
    rintro ⟨b, hb, rfl⟩
    refine ⟨b.hex, by rw [Bytes.hex_length, hb], forall_mem_hex (by decide), rfl⟩

end Uuid
