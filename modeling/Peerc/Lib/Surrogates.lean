import Mathlib.Data.List.TakeWhile
import Peerc.Lib.Json.Parse
import Peerc.Lib.Path

-- Strings in which surrogate pairs are joined

namespace Str

variable {s : Str} {c d : CodePoint}

-- The character that a pair stands for
def paired (c d : CodePoint) : CodePoint :=
  Fin.ofNat _ (0x10000 + (c.val - 0xD800) * 0x400 + (d.val - 0xDC00))

theorem paired_val (hc : c.IsHigh) (hd : d.IsLow) :
    (paired c d).val = 0x10000 + (c.val - 0xD800) * 0x400 + (d.val - 0xDC00) := by
  have := hc.right
  have := hd.right
  rw [paired, Fin.val_ofNat, Nat.mod_eq_of_lt (by omega)]

theorem joinPairs_cons_of_pair (hc : c.IsHigh) (hd : d.IsLow) :
    joinPairs (c :: d :: s) = paired c d :: joinPairs s := by
  rw [joinPairs, if_pos ⟨hc, hd⟩, paired]

theorem joinPairs_cons (h : ∀ d ∈ s.head?, ¬(c.IsHigh ∧ d.IsLow)) :
    joinPairs (c :: s) = c :: joinPairs s := by
  cases s
  case nil => rfl
  case cons d s => rw [joinPairs, if_neg (h d rfl)]

theorem escapeChar_of_ge (h : 0x7F ≤ c.val) : Json.escapeChar c =
    if c.val < 0x10000 then Json.escapeUnit c.val
    else Json.escapeUnit (0xD800 + (c.val - 0x10000) / 0x400) ++
      Json.escapeUnit (0xDC00 + (c.val - 0x10000) % 0x400) := by
  have hne {d : CodePoint} (hd : d.val < 0x7F) : c ≠ d := fun he => by
    rw [he] at h
    omega
  rw [Json.escapeChar]
  simp only [hne (d := 0x22) (by decide), hne (d := 0x5C) (by decide), hne (d := 0x0A) (by decide),
    hne (d := 0x0D) (by decide), hne (d := 0x09) (by decide), hne (d := 0x0C) (by decide),
    hne (d := 0x08) (by decide), if_false]
  rw [if_neg (by omega)]

-- `json.dumps` writes the two surrogates of a character, so that it makes no difference if they are joined.
theorem escape_joinPairs (s : Str) : Json.escape (joinPairs s) = Json.escape s := by
  have hf : (joinPairs s).flatMap Json.escapeChar = s.flatMap Json.escapeChar := by
    induction s using joinPairs.induct
    case case1 | case2 => rfl
    case case3 c d s hp hi =>
      have hv := paired_val hp.left hp.right
      obtain ⟨hc, hd⟩ := hp
      have := hc.left
      have := hc.right
      have := hd.left
      have := hd.right
      rw [joinPairs_cons_of_pair hc hd, List.flatMap_cons, List.flatMap_cons, List.flatMap_cons, hi,
        ← List.append_assoc, escapeChar_of_ge (by omega), if_neg (by omega), escapeChar_of_ge (by omega),
        if_pos (by omega), escapeChar_of_ge (by omega), if_pos (by omega)]
      have h₁ : 0xD800 + ((paired c d).val - 0x10000) / 0x400 = c.val := by omega
      have h₂ : 0xDC00 + ((paired c d).val - 0x10000) % 0x400 = d.val := by omega
      rw [h₁, h₂]
    case case4 c d s hp hi => rw [joinPairs, if_neg hp, List.flatMap_cons, List.flatMap_cons, hi]
  rw [Json.escape, hf, Json.escape]

theorem joinPairs_of_noPair (h : NoPair s) : joinPairs s = s := by
  induction s using joinPairs.induct
  case case1 | case2 => rfl
  case case3 c d s hp _ => exact absurd hp h.left
  case case4 c d s hp hi => rw [joinPairs, if_neg hp, hi h.right]

theorem joinPairs_length_le (s : Str) : (joinPairs s).length ≤ s.length := by
  induction s using joinPairs.induct
  case case1 | case2 => exact le_refl _
  case case3 c d s hp hi =>
    rw [joinPairs_cons_of_pair hp.left hp.right, List.length_cons, List.length_cons, List.length_cons]
    omega
  case case4 c d s hp hi =>
    rw [joinPairs, if_neg hp, List.length_cons, List.length_cons]
    exact Nat.succ_le_succ hi

theorem noPair_take_succ {n : Nat} (h : ∀ c ∈ s.take n, ¬c.IsHigh) : NoPair (s.take (n + 1)) := by
  induction n generalizing s
  case zero =>
    cases s
    case nil | cons => trivial
  case succ n hi =>
    rcases s with _ | ⟨c, _ | ⟨d, s⟩⟩
    · trivial
    · trivial
    · rw [List.take_succ_cons, List.forall_mem_cons] at h
      exact ⟨fun hp => h.left hp.left, hi h.right⟩

theorem joinPairs_of_isAscii (h : (joinPairs s).IsAscii) : joinPairs s = s := by
  induction s using joinPairs.induct
  case case1 | case2 => rfl
  case case3 c d s hp _ =>
    rw [joinPairs_cons_of_pair hp.left hp.right, isAscii_cons, paired_val hp.left hp.right] at h
    omega
  case case4 c d s hp hi =>
    rw [joinPairs, if_neg hp, isAscii_cons] at h
    rw [joinPairs, if_neg hp, hi h.right]

-- A cut can be made before or after the pairs are joined only if there are none up to it.
theorem joinPairs_take {m n : Nat} (hm : m < s.length) (hn : m ≤ n) :
    joinPairs (s.take m) = (joinPairs s).take n ↔ n = m ∧ NoPair (s.take (m + 1)) := by
  induction s using joinPairs.induct generalizing m n
  case case1 => cases hm
  case case2 c =>
    obtain rfl : m = 0 := by simpa using hm
    cases n <;> simp [joinPairs, NoPair]
  case case3 c d s hp hi =>
    rw [joinPairs_cons_of_pair hp.left hp.right]
    rcases m with _ | _ | m
    · cases n <;> simp [joinPairs, NoPair]
    · -- The cut separates the pair.
      obtain ⟨n, rfl⟩ := Nat.exists_eq_succ_of_ne_zero (Nat.ne_of_gt hn)
      have hne : c ≠ paired c d := fun he => by
        have := hp.left.right
        have := paired_val hp.left hp.right
        have : c.val = (paired c d).val := congrArg Fin.val he
        omega
      simp [joinPairs, NoPair, hp, hne]
    · -- The pair makes the joined text shorter.
      obtain ⟨n, rfl⟩ := Nat.exists_eq_succ_of_ne_zero (Nat.ne_of_gt (Nat.zero_lt_of_lt hn))
      have hs := hi (m := m) (n := n) (by simpa using hm) (by omega)
      have hne : n ≠ m := by omega
      simp [joinPairs_cons_of_pair hp.left hp.right, NoPair, hp, hs, hne]
  case case4 c d s hp hi =>
    rw [joinPairs, if_neg hp]
    cases m
    case zero => cases n <;> simp [joinPairs, NoPair]
    case succ m =>
      obtain ⟨n, rfl⟩ := Nat.exists_eq_succ_of_ne_zero (Nat.ne_of_gt (Nat.zero_lt_of_lt hn))
      have hs := hi (m := m) (n := n) (by simpa using hm) (by omega)
      have hj : joinPairs (c :: (d :: s).take m) = c :: joinPairs ((d :: s).take m) := by
        refine joinPairs_cons fun e he => ?_
        cases m
        case zero => cases he
        case succ => exact Option.some.inj he ▸ hp
      rw [List.take_succ_cons, hj, List.take_succ_cons, List.cons_inj_right, hs]
      simp [NoPair, hp]

theorem strip_eq_nil : s.strip = [] ↔ ∀ c ∈ s, isWhitespace c := by
  simp only [strip, List.reverse_eq_nil_iff, List.dropWhile_eq_nil_iff, List.mem_reverse]
  constructor
  · intro h c hc
    rw [← List.takeWhile_append_dropWhile (p := isWhitespace) (l := s), List.mem_append] at hc
    exact hc.elim List.mem_takeWhile_imp (h c)
  · exact fun h c hc => h c ((List.dropWhile_sublist _).subset hc)

theorem isWhitespace_of_ge (h : 0xD800 ≤ c.val) : ¬isWhitespace c := by
  simp only [isWhitespace, List.mem_cons, List.not_mem_nil, or_false, Bool.or_eq_true, Bool.and_eq_true,
    decide_eq_true_eq]
  omega

-- A surrogate is no blank, and neither is a character that a pair stands for.
theorem strip_joinPairs : (joinPairs s).strip = [] ↔ s.strip = [] := by
  rw [strip_eq_nil, strip_eq_nil]
  induction s using joinPairs.induct
  case case1 | case2 => rfl
  case case3 c d s hp hi =>
    have hc : ¬isWhitespace c := isWhitespace_of_ge hp.left.left
    have hv : ¬isWhitespace (paired c d) := isWhitespace_of_ge <| by
      rw [paired_val hp.left hp.right]
      omega
    rw [joinPairs_cons_of_pair hp.left hp.right, List.forall_mem_cons, List.forall_mem_cons]
    exact iff_of_false (fun h => hv h.left) fun h => hc h.left
  case case4 c d s hp hi =>
    rw [joinPairs, if_neg hp, List.forall_mem_cons, hi, List.forall_mem_cons (a := c)]

end Str
