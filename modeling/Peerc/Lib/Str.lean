import Peerc.Lib.Bytes

-- A `str` is a sequence of code points. Surrogates are allowed, so this is wider than `String`.
abbrev CodePoint := Fin 0x110000

namespace CodePoint

-- One instance for the literals of all modules
instance (priority := high) neZero : NeZero 0x110000 :=
  ⟨by decide⟩

def ofChar (c : Char) : CodePoint :=
  Fin.ofNat _ c.toNat

def IsHigh (c : CodePoint) : Prop := 0xD800 ≤ c.val ∧ c.val < 0xDC00
def IsLow  (c : CodePoint) : Prop := 0xDC00 ≤ c.val ∧ c.val < 0xE000

def IsSurrogate (c : CodePoint) : Prop := 0xD800 ≤ c.val ∧ c.val < 0xE000

instance : DecidablePred IsHigh := fun _ => inferInstanceAs (Decidable (_ ∧ _))
instance : DecidablePred IsLow := fun _ => inferInstanceAs (Decidable (_ ∧ _))
instance : DecidablePred IsSurrogate := fun _ => inferInstanceAs (Decidable (_ ∧ _))

def utf8 (c : CodePoint) : Bytes :=
  if c.val < 0x80 then [.ofNat c.val]
  else if c.val < 0x800 then [.ofNat (0xC0 + c.val / 64), .ofNat (0x80 + c.val % 64)]
  else if c.val < 0x10000 then
    [.ofNat (0xE0 + c.val / 4096), .ofNat (0x80 + c.val / 64 % 64), .ofNat (0x80 + c.val % 64)]
  else
    [.ofNat (0xF0 + c.val / 262144), .ofNat (0x80 + c.val / 4096 % 64),
     .ofNat (0x80 + c.val / 64 % 64), .ofNat (0x80 + c.val % 64)]

theorem utf8_append_inj {c d : CodePoint} {s t : Bytes} (h : c.utf8 ++ s = d.utf8 ++ t) : c = d ∧ s = t := by
  have hc := c.isLt
  have hd := d.isLt
  simp only [utf8] at h
  split_ifs at h <;>
    simp only [List.cons_append, List.nil_append, List.cons.injEq, ← UInt8.toNat_inj, UInt8.toNat_ofNat'] at h
  -- Of two sequences of different length, the first bytes differ.
  all_goals first
    | exact ⟨Fin.ext (by omega), h.right⟩
    | exact ⟨Fin.ext (by omega), h.right.right⟩
    | exact ⟨Fin.ext (by omega), h.right.right.right⟩
    | exact ⟨Fin.ext (by omega), h.right.right.right.right⟩
    | omega

end CodePoint

theorem CodePoint.zero_mem_utf8 {c : CodePoint} : 0 ∈ c.utf8 ↔ c = 0 := by
  have hc := c.isLt
  simp only [utf8]
  split_ifs <;>
    simp only [List.mem_cons, List.not_mem_nil, or_false, ← UInt8.toNat_inj, UInt8.toNat_ofNat', Fin.ext_iff,
      Fin.val_zero, UInt8.toNat_zero] <;>
    omega

-- The bytes literal `b"..."`, of ASCII characters
def Bytes.ascii (s : String) : Bytes :=
  s.toList.map fun c => UInt8.ofNat c.toNat

abbrev Str := List CodePoint

namespace Str

def ofString (s : String) : Str :=
  s.toList.map CodePoint.ofChar

def Encodable (s : Str) : Prop :=
  ∀ c ∈ s, ¬c.IsSurrogate

-- Not the instance for `Fin`, which goes through all code points.
instance : DecidablePred Encodable := fun s => List.decidableBAll _ s

-- `s.encode("utf-8")`: a surrogate makes it raise.
def encodeUtf8 (s : Str) : Option Bytes :=
  if Encodable s then some (s.flatMap CodePoint.utf8) else none

def IsAscii (s : Str) : Prop :=
  ∀ c ∈ s, c.val < 128

instance : DecidablePred IsAscii := fun s => List.decidableBAll _ s

-- `s.encode("ascii")`
def encodeAscii (s : Str) : Option Bytes :=
  if IsAscii s then some (s.map (fun c => UInt8.ofNat c.val)) else none

-- `s.lower()` for ASCII letters. The other letters that it changes are kept: none of them has one of
-- the letters of a hexadecimal digest as its lower case.
def lower (s : Str) : Str :=
  s.map fun c => if 0x41 ≤ c.val ∧ c.val ≤ 0x5A then c + 0x20 else c

theorem isAscii_cons {c : CodePoint} {s : Str} : IsAscii (c :: s) ↔ c.val < 128 ∧ IsAscii s :=
  List.forall_mem_cons

theorem isAscii_append {s t : Str} : IsAscii (s ++ t) ↔ IsAscii s ∧ IsAscii t :=
  List.forall_mem_append

theorem IsAscii.encodable {s : Str} (h : s.IsAscii) : s.Encodable := by
  intro c hc hs
  have := h c hc
  have := hs.left
  omega

theorem ofString_encodable (s : String) : (ofString s).Encodable := by
  intro c hc hs
  have ⟨d, _, hd⟩ := List.mem_map.mp hc
  have hv : d.toNat < 0xD800 ∨ (0xDFFF < d.toNat ∧ d.toNat < 0x110000) := d.valid
  have hc : c.val = d.toNat % 0x110000 := by rw [← hd]; rfl
  have := hs.left
  have := hs.right
  omega

theorem encodeAscii_inj {s t : Str} {b : Bytes}
    (hs : s.encodeAscii = some b) (ht : t.encodeAscii = some b) : s = t := by
  simp only [encodeAscii, Option.ite_none_right_eq_some, Option.some.injEq] at hs ht
  obtain ⟨ha, rfl⟩ := hs
  obtain ⟨hb, ht⟩ := ht
  have hl := congrArg List.length ht
  simp only [List.length_map] at hl
  apply List.ext_getElem hl.symm
  intro i h₁ h₂
  have he := congrArg (fun l => l[i]?) ht
  simp only [List.getElem?_map, h₁, h₂, List.getElem?_eq_getElem, Option.map_some,
    Option.some.injEq, ← UInt8.toNat_inj, UInt8.toNat_ofNat'] at he
  have := ha _ (List.getElem_mem h₁)
  have := hb _ (List.getElem_mem h₂)
  ext
  omega

theorem encodeUtf8_eq_some {s : Str} {b : Bytes} :
    s.encodeUtf8 = some b ↔ s.Encodable ∧ s.flatMap CodePoint.utf8 = b := by
  rw [encodeUtf8, Option.ite_none_right_eq_some, Option.some.injEq]

-- Only the character NUL has a byte that is zero.
theorem zero_mem_encodeUtf8 {s : Str} {b : Bytes} (h : s.encodeUtf8 = some b) : 0 ∈ b ↔ 0 ∈ s := by
  rw [← (encodeUtf8_eq_some.mp h).right, List.mem_flatMap]
  simp only [CodePoint.zero_mem_utf8, exists_eq_right]

theorem encodeUtf8_inj {s t : Str} {b : Bytes} (hs : s.encodeUtf8 = some b) (ht : t.encodeUtf8 = some b) :
    s = t := by
  have h : s.flatMap CodePoint.utf8 = t.flatMap CodePoint.utf8 :=
    (encodeUtf8_eq_some.mp hs).right.trans (encodeUtf8_eq_some.mp ht).right.symm
  have hne (c : CodePoint) (s : Str) : (c :: s).flatMap CodePoint.utf8 ≠ [] := by
    rw [List.flatMap_cons, CodePoint.utf8]
    split_ifs <;> exact List.cons_ne_nil _ _
  clear hs ht
  induction s generalizing t
  case nil =>
    cases t
    case nil => rfl
    case cons d t => exact (hne d t h.symm).elim
  case cons c s hi =>
    cases t
    case nil => exact (hne c s h).elim
    case cons d t =>
      rw [List.flatMap_cons, List.flatMap_cons] at h
      obtain ⟨rfl, ht⟩ := CodePoint.utf8_append_inj h
      rw [hi ht]

end Str

-- A `str` in which no high surrogate stands right before a low one. The UTF-8 decoder produces no
-- surrogate at all and the JSON decoder joins every such pair, so texts that entered the program
-- through a decoder have this shape.
def NoPair : Str → Prop
  | []          => True
  | [_]         => True
  | c :: d :: s => ¬(c.IsHigh ∧ d.IsLow) ∧ NoPair (d :: s)

namespace NoPair

instance decide : (s : Str) → Decidable (NoPair s)
  | []          => isTrue trivial
  | [_]         => isTrue trivial
  | c :: d :: s =>
    match decide (d :: s) with
    | isTrue h  => if hp : c.IsHigh ∧ d.IsLow then isFalse (·.left hp) else isTrue ⟨hp, h⟩
    | isFalse h => isFalse (h ·.right)

theorem tail {c : CodePoint} : {s : Str} → NoPair (c :: s) → NoPair s
  | [],     _ => trivial
  | _ :: _, h => h.right

theorem of_encodable {s : Str} (h : s.Encodable) : NoPair s := by
  induction s
  case nil => trivial
  case cons c s hi =>
    have hs := hi fun d hd => h d (List.mem_cons_of_mem _ hd)
    cases s
    case nil => trivial
    case cons d s =>
      refine ⟨fun hp => h c List.mem_cons_self ⟨hp.left.left, ?_⟩, hs⟩
      have := hp.left.right
      omega

end NoPair

abbrev Text := { s : Str // NoPair s }

namespace Text

def ofString (s : String) : Text :=
  ⟨Str.ofString s, .of_encodable (Str.ofString_encodable s)⟩

end Text
