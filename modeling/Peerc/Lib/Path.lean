import Peerc.Lib.Str

-- `posixpath`, and the methods of `str` that are used with it

namespace Str

def slash : CodePoint := 0x2F

def dot : CodePoint := 0x2E

-- `c.isspace()`
def isWhitespace (c : CodePoint) : Bool :=
  c.val ∈ [0x20, 0x85, 0xA0, 0x1680, 0x2028, 0x2029, 0x202F, 0x205F, 0x3000] ||
  (0x09 ≤ c.val && c.val ≤ 0x0D) || (0x1C ≤ c.val && c.val ≤ 0x1F) ||
  (0x2000 ≤ c.val && c.val ≤ 0x200A)

-- `s.strip()`
def strip (s : Str) : Str :=
  ((s.dropWhile isWhitespace).reverse.dropWhile isWhitespace).reverse

-- `s.replace(a, b)`, of single characters
def replaceChar (a b : CodePoint) (s : Str) : Str :=
  s.map fun c => if c = a then b else c

-- `os.path.basename(s)`
def basename (s : Str) : Str :=
  (s.reverse.takeWhile (· ≠ slash)).reverse

-- `os.path.splitext(s)`, of a name without a slash. Dots at the beginning are not the start of an
-- extension.
def splitext (s : Str) : Str × Str :=
  let ext  := (s.reverse.takeWhile (· ≠ dot)).reverse
  let root := s.take (s.length - ext.length - 1)
  if ext.length = s.length ∨ root.all (· = dot) then (s, []) else (root, dot :: ext)

-- `os.path.join(s, name)`, of a name that does not begin with a slash
def joinPath (s name : Str) : Str :=
  if s = [] ∨ s.getLast? = some slash then s ++ name else s ++ slash :: name

-- A text that the operating system takes as a path: it has no NUL, and only those surrogates that stand for a
-- byte of a name that is not UTF-8.
def IsPathText (s : Str) : Prop :=
  ∀ c ∈ s, c ≠ 0 ∧ (c.IsSurrogate → 0xDC80 ≤ c.val ∧ c.val ≤ 0xDCFF)

instance decidableIsPathText : DecidablePred IsPathText := fun s => List.decidableBAll _ s

theorem joinPath_injective (s : Str) : Function.Injective (joinPath s) := by
  intro a b h
  unfold joinPath at h
  split at h
  case isTrue => exact List.append_cancel_left h
  case isFalse => exact (List.cons.inj (List.append_cancel_left h)).right

theorem splitext_append (s : Str) : (splitext s).fst ++ (splitext s).snd = s := by
  unfold splitext
  extract_lets ext root
  split
  case isTrue => exact List.append_nil s
  case isFalse h =>
    rw [not_or] at h
    have hs := List.takeWhile_append_dropWhile (p := (· ≠ dot)) (l := s.reverse)
    have hr := congrArg List.reverse hs
    rw [List.reverse_append, List.reverse_reverse] at hr
    have he : ext = (s.reverse.takeWhile (· ≠ dot)).reverse := rfl
    rw [← he] at hr
    -- What is left of the extension ends with the dot.
    cases hd : s.reverse.dropWhile (· ≠ dot)
    case nil =>
      rw [hd] at hr
      exact (h.left (congrArg List.length hr)).elim
    case cons c tl =>
      have hc : c = dot := by
        have := List.head?_dropWhile_not (· ≠ dot) s.reverse
        rw [hd] at this
        simpa using this
      rw [hd, List.reverse_cons, hc, List.append_assoc] at hr
      have hl : root = tl.reverse := by
        have hlen := congrArg List.length hr
        simp only [List.length_append, List.length_singleton] at hlen
        have : s.length - ext.length - 1 = tl.reverse.length := by omega
        change s.take (s.length - ext.length - 1) = _
        rw [this, ← hr, List.take_left]
      rw [hl]
      exact hr

end Str
