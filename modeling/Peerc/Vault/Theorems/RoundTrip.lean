import Peerc.Lib.Lists
import Peerc.Vault.RecoveryCode

-- A recovery code is read back however it is written down.

namespace Vault

theorem toNatBE_lt_pow (b : Bytes) : b.toNatBE < 32 ^ ((b.length * 8 + 4) / 5) := by
  calc b.toNatBE
    _ < 256 ^ b.length := Bytes.toNatBE_lt b
    _ = 2 ^ (8 * b.length) := by rw [pow_mul]; rfl
    _ ≤ 2 ^ (5 * ((b.length * 8 + 4) / 5)) := Nat.pow_le_pow_right two_pos (by omega)
    _ = 32 ^ ((b.length * 8 + 4) / 5) := by rw [pow_mul]; rfl

theorem decodeCrockford_encodeCrockford (b : Bytes) : decodeCrockford (encodeCrockford b) = .ok b := by
  have hv : Radix.value (Radix.digits 32 ((b.length * 8 + 4) / 5) b.toNatBE) = b.toNatBE := by
    rw [Radix.value_digits, Nat.mod_eq_of_lt (toNatBE_lt_pow b)]
  have hl : (b.length * 8 + 4) / 5 * 5 / 8 = b.length := by omega
  refine decodeCrockford_eq_ok.mpr ⟨_, encodeCrockford_eq b, ?_, ?_⟩
  · rw [hv, Radix.digits_length, hl]
    exact Bytes.toNatBE_lt b
  · rw [hv, Radix.digits_length, hl, Bytes.ofNatBE_toNatBE]

theorem normalizeRecoveryCode_of_cleaned {K : Casing} {code : Str} {raw : Bytes} (h : cleaned K code = spelling raw)
    (hl : raw.length = recoveryCodeBytes) : normalizeRecoveryCode K code = .ok raw := by
  obtain ⟨ds, hd, hv, hr⟩ := decodeCrockford_eq_ok.mp (decodeCrockford_encodeCrockford raw)
  have hn : ds.length * 5 / 8 = recoveryCodeBytes := by
    rw [← hl, hr, Bytes.ofNatBE_length]
  exact normalizeRecoveryCode_eq_ok.mpr ⟨ds, hd ▸ h, hn, hn ▸ hv, hn ▸ hr⟩

-- What stands for itself in a code, and the ways to write it

def isSymbol (c : CodePoint) : Bool :=
  c ≠ dash ∧ c ≠ space

def variants (c : CodePoint) : Str :=
  c :: ((if 0x41 ≤ c.val ∧ c.val ≤ 0x5A then [c + 0x20] else []) ++
    (if c = .ofChar '0' then Str.ofString "Oo" else if c = .ofChar '1' then Str.ofString "IiLl" else []))

-- `typed` is `code` between blanks, with other separators and with variants of its symbols.
def Renders (typed code : Str) : Prop :=
  ∃ before body after, typed = before ++ body ++ after ∧
    (∀ c ∈ before, Str.isWhitespace c) ∧ (∀ c ∈ after, Str.isWhitespace c) ∧
    List.Forall₂ (fun d c => d ∈ variants c) (body.filter isSymbol) (code.filter isSymbol)

-- The character is neither dropped nor kept as it is.
structure CleanedTo (d c : CodePoint) : Prop where
  ascii  : d.val < 128
  blank  : ¬Str.isWhitespace d
  kept   : isSymbol d.asciiUpper
  mapped : normalizeChar d.asciiUpper = c

instance decidableCleanedTo (d c : CodePoint) : Decidable (CleanedTo d c) :=
  decidable_of_iff
    (d.val < 128 ∧ ¬Str.isWhitespace d ∧ isSymbol d.asciiUpper ∧ normalizeChar d.asciiUpper = c)
    ⟨fun h => ⟨h.left, h.right.left, h.right.right.left, h.right.right.right⟩,
      fun h => ⟨h.ascii, h.blank, h.kept, h.mapped⟩⟩

theorem cleanedTo_of_variant {c d : CodePoint} (hc : c ∈ checkAlphabet) (hd : d ∈ variants c) :
    CleanedTo d c := by
  -- Not the instance that goes through all code points
  have h : checkAlphabet.all fun c => (variants c).all fun d => CleanedTo d c := by decide +kernel
  exact of_decide_eq_true (List.all_eq_true.mp (List.all_eq_true.mp h c hc) d hd)

-- What `cleaned` makes of a trimmed text

def scrub (K : Casing) (s : Str) : Str :=
  (((s.upper K).filter (· ≠ dash)).filter (· ≠ space)).map normalizeChar

variable {K : Casing} {s t body codes : Str} {c d : CodePoint} {raw : Bytes}

theorem scrub_append : scrub K (s ++ t) = scrub K s ++ scrub K t := by
  simp only [scrub, Str.upper, List.flatMap_append, List.filter_append, List.map_append]

theorem scrub_separator (h : ¬isSymbol c) : scrub K [c] = [] := by
  have hc : c = dash ∨ c = space := by
    by_contra hn
    exact h (decide_eq_true (not_or.mp hn))
  rcases hc with rfl | rfl <;> rw [scrub, Str.upper, List.flatMap_singleton, K.upper_ascii _ (by decide)] <;> rfl

theorem scrub_variant (hc : c ∈ checkAlphabet) (hd : d ∈ variants c) : scrub K [d] = [c] := by
  obtain ⟨ha, -, hk, hm⟩ := cleanedTo_of_variant hc hd
  obtain ⟨hdash, hspace⟩ := of_decide_eq_true hk
  simp [scrub, Str.upper, K.upper_ascii d ha, hdash, hspace, hm]

theorem scrub_body (hc : ∀ c ∈ codes, c ∈ checkAlphabet)
    (h : List.Forall₂ (fun d c => d ∈ variants c) (body.filter isSymbol) codes) : scrub K body = codes := by
  induction body generalizing codes
  case nil =>
    cases h
    rfl
  case cons d body hi =>
    rw [← List.singleton_append, scrub_append]
    by_cases hd : isSymbol d
    case neg =>
      rw [List.filter_cons_of_neg hd] at h
      rw [scrub_separator hd, List.nil_append, hi hc h]
    case pos =>
      rw [List.filter_cons_of_pos hd] at h
      cases h
      case cons c codes hv h =>
        rw [scrub_variant (hc c List.mem_cons_self) hv, hi (fun c h => hc c (List.mem_cons_of_mem _ h)) h]
        rfl

theorem cleaned_of_renders {code : Str} (hc : ∀ c ∈ code.filter isSymbol, c ∈ checkAlphabet) (h : Renders s code) :
    cleaned K s = code.filter isSymbol := by
  obtain ⟨before, body, after, rfl, hb, ha, hv⟩ := h
  -- The only blanks of the body are spaces, and those are dropped anyway.
  have hblank : ∀ c ∈ body, Str.isWhitespace c → ¬isSymbol c := by
    intro d hd hw hs
    obtain ⟨c, hm, hdv⟩ := hv.exists_of_mem (List.mem_filter.mpr ⟨hd, hs⟩)
    exact (cleanedTo_of_variant (hc c hm) hdv).blank hw
  obtain ⟨l, r, hbody, hl, hr⟩ := Str.strip_split body
  have hdrop {t : Str} (ht : ∀ c ∈ t, Str.isWhitespace c) (hm : ∀ c ∈ t, c ∈ body) : scrub K t = [] := by
    induction t
    case nil => rfl
    case cons c t hi =>
      rw [← List.singleton_append, scrub_append, hi, scrub_separator]
      · rfl
      · exact hblank c (hm c List.mem_cons_self) (ht c List.mem_cons_self)
      · exact fun d hd => ht d (List.mem_cons_of_mem _ hd)
      · exact fun d hd => hm d (List.mem_cons_of_mem _ hd)
  have hscrub : scrub K body = scrub K body.strip := by
    have hml : ∀ c ∈ l, c ∈ body := fun c hc => hbody ▸ by simp [hc]
    have hmr : ∀ c ∈ r, c ∈ body := fun c hc => hbody ▸ by simp [hc]
    conv_lhs => rw [hbody]
    rw [scrub_append, scrub_append, hdrop hl hml, hdrop hr hmr, List.nil_append, List.append_nil]
  change scrub K (Str.strip _) = _
  rw [Str.strip_append hb ha, ← hscrub, scrub_body hc hv]

-- The code that is generated

theorem filter_intercalate {p : CodePoint → Bool} {sep : Str} (h : sep.filter p = []) (groups : List Str) :
    (sep.intercalate groups).filter p = groups.flatten.filter p := by
  induction groups
  case nil => rfl
  case cons g groups hi =>
    cases groups
    case nil => simp [List.intercalate]
    case cons g' groups =>
      simp only [List.intercalate, List.intersperse_cons_cons, List.flatten_cons, List.filter_append, h,
        List.nil_append] at hi ⊢
      rw [hi]

theorem flatten_groups (k n i : Nat) (s : Str) :
    ((List.range' i n k).map fun i => (s.drop i).take k).flatten = (s.drop i).take (n * k) := by
  induction n generalizing i
  case zero => simp
  case succ n hi =>
    rw [List.range'_succ, List.map_cons, List.flatten_cons, hi, Nat.succ_mul, Nat.add_comm (n * k),
      List.take_add, List.drop_drop]

theorem getD_mem {i : Nat} (h : i < s.length) : s.getD i 0 ∈ s := by
  rw [List.getD_eq_getElem?_getD, List.getElem?_eq_getElem h]
  exact List.getElem_mem h

theorem dataSymbol_mem (d : Fin 32) : dataSymbol d ∈ dataAlphabet :=
  getD_mem d.isLt

theorem checksumChar_mem : checksumChar raw ∈ checkAlphabet :=
  getD_mem (Nat.mod_lt _ (by decide))

theorem spelling_mem_checkAlphabet : ∀ c ∈ spelling raw, c ∈ checkAlphabet := by
  rw [spelling, encodeCrockford_eq, List.forall_mem_append, List.forall_mem_map, List.forall_mem_singleton]
  exact ⟨fun d _ => List.mem_append_left _ (dataSymbol_mem d), checksumChar_mem⟩

theorem isSymbol_of_mem (h : c ∈ checkAlphabet) : isSymbol c :=
  List.all_eq_true.mp (by decide : checkAlphabet.all isSymbol) c h

theorem generateRecoveryCode_filter : (generateRecoveryCode raw).filter isSymbol = spelling raw := by
  have hs : (spelling raw).filter isSymbol = spelling raw :=
    List.filter_eq_self.mpr fun c hc => isSymbol_of_mem (spelling_mem_checkAlphabet c hc)
  have hl : (spelling raw).length ≤ ((spelling raw).length + groupSize - 1) / groupSize * groupSize := by
    simp only [groupSize]
    omega
  rw [generateRecoveryCode, filter_intercalate (by decide), flatten_groups, List.drop_zero,
    List.take_of_length_le hl, hs]

theorem Renders.refl (code : Str) : Renders code code :=
  ⟨[], code, [], by simp, nofun, nofun, List.forall₂_same.mpr fun _ _ => List.mem_cons_self⟩

theorem normalizeRecoveryCode_of_renders {typed : Str} (hl : raw.length = recoveryCodeBytes)
    (h : Renders typed (generateRecoveryCode raw)) : normalizeRecoveryCode K typed = .ok raw := by
  refine normalizeRecoveryCode_of_cleaned ?_ hl
  rw [cleaned_of_renders (generateRecoveryCode_filter ▸ spelling_mem_checkAlphabet) h,
    generateRecoveryCode_filter]

theorem recovery_code_round_trip (K : Casing) :
    (∀ b, decodeCrockford (encodeCrockford b) = .ok b) ∧
    ∀ raw typed, raw.length = recoveryCodeBytes → Renders typed (generateRecoveryCode raw) →
      normalizeRecoveryCode K typed = .ok raw :=
  ⟨decodeCrockford_encodeCrockford, fun _ _ => normalizeRecoveryCode_of_renders⟩

namespace Typed

def number41 : Bytes :=
  List.replicate 19 0 ++ [41]

-- The code is `00000-00000-00000-00000-00000-00000-194`.
def typed : Str :=
  .ofString " oooooOOOOOoooooOOOOO ooooo-ooooo-L 94"

end Typed

open Typed in
theorem recovery_code_round_trip_typed :
    Renders typed (generateRecoveryCode number41) ∧ normalizeRecoveryCode .ascii typed = .ok number41 := by
  have h : Renders typed (generateRecoveryCode number41) := by
    refine ⟨[], typed, [], by simp, nofun, nofun, ?_⟩
    decide +kernel
  exact ⟨h, (recovery_code_round_trip .ascii).right number41 typed rfl h⟩

end Vault
