import Peerc.Vault.Theorems.RoundTrip

-- Which texts are accepted as a recovery code

namespace Vault

variable {K : Casing} {code : Str} {raw : Bytes}

-- The symbols of the bytes for a number are its digits.
theorem encodeCrockford_ofNatBE {ds : List (Fin 32)} (hl : ds.length = 32) :
    encodeCrockford (.ofNatBE recoveryCodeBytes (Radix.value ds)) = ds.map dataSymbol := by
  have hv : Radix.value ds < 256 ^ recoveryCodeBytes := by
    have := Radix.value_lt (by decide) ds
    rwa [hl] at this
  rw [encodeCrockford_eq, Bytes.ofNatBE_length, Bytes.toNatBE_ofNatBE, Nat.mod_eq_of_lt hv]
  have hd := Radix.digits_value (by decide) ds
  rw [hl] at hd
  exact congrArg _ hd

theorem value_zero_cons (ds : List (Fin 32)) : Radix.value (0 :: ds) = Radix.value ds := by
  rw [Radix.value_cons, Fin.val_zero, Nat.zero_mul, Nat.zero_add]

-- A text that is accepted is the code, or the code after a zero.
theorem cleaned_of_normalizeRecoveryCode (h : normalizeRecoveryCode K code = .ok raw) :
    raw.length = recoveryCodeBytes ∧
      (cleaned K code = spelling raw ∨ cleaned K code = .ofChar '0' :: spelling raw) := by
  obtain ⟨ds, hd, hn, hv, hr⟩ := normalizeRecoveryCode_eq_ok.mp h
  refine ⟨hr ▸ Bytes.ofNatBE_length _ _, ?_⟩
  rw [hd, spelling]
  simp only [recoveryCodeBytes] at hn
  have hl : ds.length = 32 ∨ ds.length = 33 := by omega
  rcases hl with hl | hl
  · left
    rw [hr, encodeCrockford_ofNatBE hl]
  · right
    cases ds
    case nil => cases hl
    case cons d ds =>
      -- The number is too small for another first digit.
      have hl : ds.length = 32 := Nat.succ.inj hl
      have hz : d = 0 := by
        by_contra hz
        have hp : 1 ≤ d.val := Nat.pos_of_ne_zero fun h => hz (Fin.ext h)
        have hm : 1 * 32 ^ 32 ≤ d.val * 32 ^ 32 := Nat.mul_le_mul_right _ hp
        rw [Radix.value_cons, hl] at hv
        simp only [recoveryCodeBytes] at hv
        omega
      rw [hr, hz, value_zero_cons, encodeCrockford_ofNatBE hl]
      rfl

-- The code after a zero is accepted.
theorem normalizeRecoveryCode_zero_cons (hl : raw.length = recoveryCodeBytes)
    (h : cleaned K code = .ofChar '0' :: spelling raw) : normalizeRecoveryCode K code = .ok raw := by
  let ds := Radix.digits 32 32 raw.toNatBE
  have hv : Radix.value (0 :: ds) = raw.toNatBE := by
    have hlt := toNatBE_lt_pow raw
    rw [hl] at hlt
    rw [value_zero_cons, Radix.value_digits]
    exact Nat.mod_eq_of_lt hlt
  have hs : encodeCrockford raw = ds.map dataSymbol := by
    rw [encodeCrockford_eq, hl]
    rfl
  refine normalizeRecoveryCode_eq_ok.mpr ⟨0 :: ds, ?_, ?_, ?_, ?_⟩
  · rw [h, spelling, hs]
    rfl
  · rw [List.length_cons, Radix.digits_length]
    rfl
  · rw [hv, ← hl]
    exact Bytes.toNatBE_lt raw
  · rw [hv, ← hl, Bytes.ofNatBE_toNatBE]

theorem length_spelling (hl : raw.length = recoveryCodeBytes) : (spelling raw).length = 33 := by
  rw [spelling, encodeCrockford_eq, hl, List.length_append, List.length_map, Radix.digits_length]
  rfl

-- An accepted text is the code, and a text with another number of symbols is not accepted.
def OneSpelling (K : Casing) (code : Str) : Prop :=
  (∀ raw, normalizeRecoveryCode K code = .ok raw →
    cleaned K code = encodeCrockford raw ++ [checksumChar raw]) ∧
  ((cleaned K code).length ≠ 33 → ∃ e, normalizeRecoveryCode K code = .error e)

theorem one_spelling_iff (K : Casing) (code : Str) :
    OneSpelling K code ↔ ¬∃ raw, raw.length = recoveryCodeBytes ∧
      cleaned K code = .ofChar '0' :: (encodeCrockford raw ++ [checksumChar raw]) := by
  constructor
  · rintro ⟨h, -⟩ ⟨raw, hl, hz⟩
    have hs : cleaned K code = spelling raw := h raw (normalizeRecoveryCode_zero_cons hl hz)
    have he := congrArg List.length (hs.symm.trans hz)
    change (spelling raw).length = (spelling raw).length + 1 at he
    omega
  · intro h
    have hs : ∀ raw, normalizeRecoveryCode K code = .ok raw → cleaned K code = spelling raw := by
      intro raw hr
      obtain ⟨hl, hc | hc⟩ := cleaned_of_normalizeRecoveryCode hr
      · exact hc
      · exact (h ⟨raw, hl, hc⟩).elim
    refine ⟨hs, fun hn => ?_⟩
    cases hr : normalizeRecoveryCode K code
    case error e => exact ⟨e, rfl⟩
    case ok raw =>
      rw [hs raw hr, length_spelling (cleaned_of_normalizeRecoveryCode hr).left] at hn
      exact (hn rfl).elim

-- A code with one more zero at its beginning is accepted.
theorem one_spelling_extra_zero :
    normalizeRecoveryCode .ascii (.ofString "000000-00000-00000-00000-00000-00000-194") =
      .ok (List.replicate 19 0 ++ [41]) ∧
    (cleaned .ascii (.ofString "000000-00000-00000-00000-00000-00000-194")).length = 34 := by
  constructor
  · exact normalizeRecoveryCode_zero_cons rfl (by decide +kernel)
  · decide +kernel

end Vault
