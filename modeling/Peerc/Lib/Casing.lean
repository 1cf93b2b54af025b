import Mathlib.Data.List.TakeWhile
import Peerc.Lib.Path

def CodePoint.asciiUpper (c : CodePoint) : CodePoint :=
  if 0x61 ≤ c.val ∧ c.val ≤ 0x7A then c - 0x20 else c

-- The upper case of each character in the Unicode database of the interpreter, of which only the part for
-- ASCII is fixed. It can be more than one character.
structure Casing where
  upper : CodePoint → Str
  upper_ascii (c : CodePoint) (h : c.val < 128) : upper c = [c.asciiUpper]

-- Only ASCII letters have another case.
def Casing.ascii : Casing where
  upper c := [c.asciiUpper]
  upper_ascii _ _ := rfl

namespace Str

-- `s.upper()`
def upper (K : Casing) (s : Str) : Str :=
  s.flatMap K.upper

variable {s before after : Str}

theorem strip_append (hb : ∀ c ∈ before, isWhitespace c) (ha : ∀ c ∈ after, isWhitespace c) :
    strip (before ++ s ++ after) = strip s := by
  have drop {l t : Str} (h : ∀ c ∈ l, isWhitespace c) :
      (l ++ t).dropWhile isWhitespace = t.dropWhile isWhitespace := by
    rw [List.dropWhile_append, List.dropWhile_eq_nil_iff.mpr h]
    rfl
  rw [List.append_assoc, strip, drop hb, List.dropWhile_append, strip]
  by_cases hs : (s.dropWhile isWhitespace).isEmpty
  case pos => rw [if_pos hs, List.isEmpty_iff.mp hs, List.dropWhile_eq_nil_iff.mpr ha]
  case neg => rw [if_neg hs, List.reverse_append, drop fun c hc => ha c (List.mem_reverse.mp hc)]

-- What is stripped is at the ends.
theorem strip_split (s : Str) : ∃ before after, s = before ++ strip s ++ after ∧
    (∀ c ∈ before, isWhitespace c) ∧ ∀ c ∈ after, isWhitespace c := by
  let t := s.dropWhile isWhitespace
  refine ⟨s.takeWhile isWhitespace, (t.reverse.takeWhile isWhitespace).reverse, ?_, ?_, ?_⟩
  · rw [strip, List.append_assoc, ← List.reverse_append, List.takeWhile_append_dropWhile, List.reverse_reverse,
      List.takeWhile_append_dropWhile]
  · exact fun c hc => List.mem_takeWhile_imp hc
  · exact fun c hc => List.mem_takeWhile_imp (List.mem_reverse.mp hc)

end Str
