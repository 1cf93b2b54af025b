import Mathlib.Tactic.NormNum.Prime
import Peerc.Vault.Theorems.RoundTrip

-- What the check symbol of a recovery code tells

namespace Vault

variable {K : Casing} {code typed symbols data : Str} {check c : CodePoint} {raw : Bytes}

instance prime37 : Fact (Nat.Prime 37) :=
  ⟨by norm_num⟩

-- The symbols as numbers

def checkSymbol (n : Nat) : CodePoint :=
  checkAlphabet.getD n 0

def digit (c : CodePoint) : Fin 32 :=
  Fin.ofNat 32 (dataAlphabet.idxOf c)

theorem digit_dataSymbol : ∀ d : Fin 32, digit (dataSymbol d) = d := by
  decide

theorem checkSymbol_digit : ∀ d : Fin 32, checkSymbol d = dataSymbol d := by
  decide

theorem checkSymbol_injective {m n : Nat} (hm : m < 37) (hn : n < 37) (h : checkSymbol m = checkSymbol n) :
    m = n := by
  have hi : ∀ m : Fin 37, checkAlphabet.idxOf (checkSymbol m) = m := by decide
  calc m
    _ = checkAlphabet.idxOf (checkSymbol m) := (hi ⟨m, hm⟩).symm
    _ = checkAlphabet.idxOf (checkSymbol n) := by rw [h]
    _ = n := hi ⟨n, hn⟩

-- A data symbol is the one of its digit.
theorem dataSymbol_digit (h : c ∈ dataAlphabet) : dataSymbol (digit c) = c := by
  have hd : dataAlphabet.all fun c => dataSymbol (digit c) = c := by decide
  exact of_decide_eq_true (List.all_eq_true.mp hd c h)

theorem digit_injective {a : CodePoint} (ha : a ∈ dataAlphabet) (hc : c ∈ dataAlphabet) (h : digit a = digit c) :
    a = c := by
  rw [← dataSymbol_digit ha, ← dataSymbol_digit hc, h]

-- A text of symbols and dashes is cleaned to its symbols.
theorem cleaned_of_symbols (h : ∀ c ∈ typed.filter (· ≠ dash), c ∈ checkAlphabet) :
    cleaned K typed = typed.filter (· ≠ dash) := by
  have hs : (typed.filter (· ≠ dash)).filter isSymbol = typed.filter (· ≠ dash) :=
    List.filter_eq_self.mpr fun c hc => isSymbol_of_mem (h c hc)
  have ht : (typed.filter (· ≠ dash)).filter isSymbol = typed.filter isSymbol := by
    rw [List.filter_filter]
    exact List.filter_congr fun c _ => by by_cases hc : c = dash <;> simp [isSymbol, hc]
  have hr : Renders typed (typed.filter (· ≠ dash)) := by
    refine ⟨[], typed, [], by simp, nofun, nofun, ?_⟩
    rw [ht]
    exact List.forall₂_same.mpr fun c _ => List.mem_cons_self
  rw [cleaned_of_renders (hs.symm ▸ h) hr, hs]

-- What an accepted text of 33 symbols has
structure Checked (data : Str) (check : CodePoint) : Prop where
  mem : ∀ c ∈ data, c ∈ dataAlphabet
  sum : check = checkSymbol (Radix.value (data.map digit) % 37)

theorem Checked.of_normalize (hc : cleaned K code = data ++ [check])
    (h : normalizeRecoveryCode K code = .ok raw) : Checked data check := by
  obtain ⟨ds, hd, -, hv, rfl⟩ := normalizeRecoveryCode_eq_ok.mp h
  obtain ⟨rfl, he⟩ := List.append_inj' (hc.symm.trans hd) rfl
  cases he
  have hm : (ds.map dataSymbol).map digit = ds := by
    rw [List.map_map]
    exact List.map_id'' digit_dataSymbol ds
  refine ⟨List.forall_mem_map.mpr fun d _ => dataSymbol_mem d, ?_⟩
  rw [hm, checksumChar, Bytes.toNatBE_ofNatBE, Nat.mod_eq_of_lt hv]
  rfl

-- The symbols that are typed instead of `data` and `check`
inductive Mistyped : (data : Str) → (check : CodePoint) → Str → CodePoint → Prop
  | data {before after : Str} {a c check : CodePoint} (mem : c ∈ checkAlphabet) (ne : c ≠ a) :
    Mistyped (before ++ a :: after) check (before ++ c :: after) check
  | check {data : Str} {check c : CodePoint} (mem : c ∈ checkAlphabet) (ne : c ≠ check) :
    Mistyped data check data c
  | exchange {before between after : Str} {a c check : CodePoint} (ne : a ≠ c) :
    Mistyped (before ++ a :: (between ++ c :: after)) check (before ++ c :: (between ++ a :: after)) check
  | exchangeCheck {before : Str} {a check : CodePoint} (ne : a ≠ check) :
    Mistyped (before ++ [a]) check (before ++ [check]) a

namespace Mistyped

variable {data' : Str} {check' : CodePoint}

theorem mem (h : Mistyped data check data' check') (hd : ∀ c ∈ data, c ∈ checkAlphabet)
    (hc : check ∈ checkAlphabet) : ∀ c ∈ data' ++ [check'], c ∈ checkAlphabet := by
  cases h
  case data hm ne =>
    simp only [List.forall_mem_append, List.forall_mem_cons] at hd ⊢
    exact ⟨⟨hd.left, hm, hd.right.right⟩, hc, nofun⟩
  case check hm ne =>
    simp only [List.forall_mem_append, List.forall_mem_cons]
    exact ⟨hd, hm, nofun⟩
  case exchange ne =>
    simp only [List.forall_mem_append, List.forall_mem_cons] at hd ⊢
    obtain ⟨hbefore, ha, hbetween, hb, hafter⟩ := hd
    exact ⟨⟨hbefore, hb, hbetween, ha, hafter⟩, hc, nofun⟩
  case exchangeCheck ne =>
    simp only [List.forall_mem_append, List.forall_mem_cons] at hd ⊢
    exact ⟨⟨hd.left, hc, nofun⟩, hd.right⟩

-- The mistyped symbols do not have the right check symbol.
theorem not_checked (h : Mistyped data check data' check') (hl : data.length = 32) (hc : Checked data check) :
    ¬Checked data' check' := by
  have heq {m n : Nat} (h : checkSymbol (m % 37) = checkSymbol (n % 37)) : m % 37 = n % 37 :=
    checkSymbol_injective (Nat.mod_lt _ (by decide)) (Nat.mod_lt _ (by decide)) h
  intro hc'
  cases h
  case data before after a c hm ne =>
    have hs := heq (hc.sum.symm.trans hc'.sum)
    simp only [List.map_append, List.map_cons] at hs
    refine Radix.check_replace (by decide) (fun he => ne ?_) hs
    exact (digit_injective (hc.mem a (by simp)) (hc'.mem c (by simp)) he).symm
  case check hm ne => exact ne (hc'.sum.trans hc.sum.symm)
  case exchange before between after a c ne =>
    have hs := heq (hc.sum.symm.trans hc'.sum)
    simp only [List.map_append, List.map_cons] at hs
    have ho : ∀ k < 31, 32 ^ (k + 1) % 37 ≠ 1 % 37 := by decide
    refine Radix.check_exchange (by decide) (fun he => ne ?_) (ho _ ?_) hs
    · exact digit_injective (hc.mem a (by simp)) (hc.mem c (by simp)) he
    · simp only [List.length_append, List.length_cons, List.length_map] at hl ⊢
      omega
  case exchangeCheck before ne =>
    have hsum {data : Str} {c : CodePoint} (h : Checked data c) (hm : c ∈ dataAlphabet) :
        Radix.value (data.map digit) % 37 = digit c := by
      refine checkSymbol_injective (Nat.mod_lt _ (by decide)) ((digit c).isLt.trans (by decide)) ?_
      rw [← h.sum, checkSymbol_digit, dataSymbol_digit hm]
    have ha := hc.mem check' (by simp)
    have hb := hc'.mem check (by simp)
    have h₁ := hsum hc hb
    have h₂ := hsum hc' ha
    simp only [List.map_append, List.map_singleton] at h₁ h₂
    exact Radix.check_exchange_check (by decide) (by decide) (fun he => ne (digit_injective ha hb he)) h₁ h₂

end Mistyped

-- A code of 32 data symbols and a check symbol, with dashes anywhere
structure HasSymbols (code data : Str) (check : CodePoint) : Prop where
  symbols : code.filter (· ≠ dash) = data ++ [check]
  length  : data.length = 32
  data    : ∀ c ∈ data, c ∈ dataAlphabet
  check   : check ∈ checkAlphabet

theorem mistyped_code_rejected (K : Casing) (code typed data data' : Str) (check check' : CodePoint) (raw : Bytes)
    (symbols : HasSymbols code data check) (valid : normalizeRecoveryCode K code = .ok raw)
    (mistyped : Mistyped data check data' check') (h : typed.filter (· ≠ dash) = data' ++ [check']) :
    ∃ e, normalizeRecoveryCode K typed = .error e := by
  have hd : ∀ c ∈ data, c ∈ checkAlphabet := fun c hc => List.mem_append_left _ (symbols.data c hc)
  have hcode : cleaned K code = data ++ [check] := by
    rw [cleaned_of_symbols, symbols.symbols]
    rw [symbols.symbols, List.forall_mem_append, List.forall_mem_singleton]
    exact ⟨hd, symbols.check⟩
  have htyped : cleaned K typed = data' ++ [check'] := by
    rw [cleaned_of_symbols, h]
    exact h ▸ mistyped.mem hd symbols.check
  cases hn : normalizeRecoveryCode K typed
  case error e => exact ⟨e, rfl⟩
  case ok raw' =>
    exact (mistyped.not_checked symbols.length (.of_normalize hcode valid) (.of_normalize htyped hn)).elim

namespace Typed

def zeros : Str :=
  List.replicate 30 (.ofChar '0')

-- The code for 41, and the same with two symbols exchanged

def code41 : Str :=
  .ofString "00000-00000-00000-00000-00000-00000-194"

def typed41 : Str :=
  .ofString "00000-00000-00000-00000-00000-00000-914"

end Typed

open Typed in
theorem mistyped_code_rejected_exchange :
    HasSymbols code41 (zeros ++ .ofString "19") (.ofChar '4') ∧
    normalizeRecoveryCode .ascii code41 = .ok number41 ∧
    ∃ e, normalizeRecoveryCode .ascii typed41 = .error e := by
  have hd : (zeros ++ Str.ofString "19").all (· ∈ dataAlphabet) := by decide +kernel
  have hs : HasSymbols code41 (zeros ++ .ofString "19") (.ofChar '4') :=
    ⟨by decide +kernel, rfl, fun c hc => of_decide_eq_true (List.all_eq_true.mp hd c hc), by decide +kernel⟩
  have hv : normalizeRecoveryCode .ascii code41 = .ok number41 :=
    normalizeRecoveryCode_of_cleaned (by decide +kernel) rfl
  have hm : Mistyped (zeros ++ .ofString "19") (.ofChar '4') (zeros ++ .ofString "91") (.ofChar '4') :=
    @Mistyped.exchange zeros [] [] _ _ _ (by decide)
  exact ⟨hs, hv, mistyped_code_rejected .ascii code41 typed41 _ _ _ _ _ hs hv hm (by decide +kernel)⟩

end Vault
