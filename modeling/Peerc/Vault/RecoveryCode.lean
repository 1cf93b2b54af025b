import Peerc.Lib.Casing
import Peerc.Lib.Message
import Peerc.Lib.Radix
import Peerc.Lib.Refines

-- core/vault/recovery_code.py

namespace Vault

def recoveryCodeBytes : Nat := 20

def groupSize : Nat := 5

-- `_DATA_ALPHABET`
def dataAlphabet : Str :=
  .ofString "0123456789ABCDEFGHJKMNPQRSTVWXYZ"

-- `_CHECK_ALPHABET`
def checkAlphabet : Str :=
  dataAlphabet ++ .ofString "*~$=U"

-- `_DATA_INDEX`
def dataIndex (ch : CodePoint) : Option Nat :=
  dataAlphabet.idxOf? ch

-- `_NORMALIZE`
def normalizeChar (ch : CodePoint) : CodePoint :=
  if ch ∈ Str.ofString "Oo" then .ofChar '0'
  else if ch ∈ Str.ofString "IiLl" then .ofChar '1'
  else ch

structure RecoveryCodeError where
  msg : Message

-- The index is below 32, so that there always is a character.
def encodeCrockford (data : Bytes) : Str :=
  let value := data.toNatBE
  let nChars := (data.length * 8 + 4) / 5
  (List.range nChars).map fun i =>
    let shift := 5 * (nChars - 1 - i)
    dataAlphabet.getD ((value >>> shift) &&& 0x1F) 0

-- The loop of `_decode_crockford`, and its body

def decodeChar (value : Nat) (ch : CodePoint) : Except RecoveryCodeError Nat :=
  match dataIndex ch with
  | some i => .ok (value <<< 5 ||| i)
  | none   => .error ⟨[.text "invalid character ", .repr [ch], .text " in recovery code"]⟩

def decodeValue (text : Str) : Except RecoveryCodeError Nat :=
  text.foldlM decodeChar 0

def decodeCrockford (text : Str) : Except RecoveryCodeError Bytes := do
  let value ← decodeValue text
  let nBytes := text.length * 5 / 8
  -- `value.to_bytes` raises `OverflowError` for a greater value.
  if value < 256 ^ nBytes then return .ofNatBE nBytes value
  else throw ⟨[.text "recovery code is malformed or truncated"]⟩

def checksumChar (data : Bytes) : CodePoint :=
  checkAlphabet.getD (data.toNatBE % 37) 0

def dash : CodePoint := .ofChar '-'

def space : CodePoint := .ofChar ' '

-- The symbols of the code for `raw`
def spelling (raw : Bytes) : Str :=
  encodeCrockford raw ++ [checksumChar raw]

-- `raw` are the bytes that `os.urandom` returns.
def generateRecoveryCode (raw : Bytes) : Str :=
  let full := spelling raw
  let groups := (List.range' 0 ((full.length + groupSize - 1) / groupSize) groupSize).map fun i =>
    (full.drop i).take groupSize
  [dash].intercalate groups

def cleaned (K : Casing) (code : Str) : Str :=
  (((code.strip.upper K).filter (· ≠ dash)).filter (· ≠ space)).map normalizeChar

def normalizeRecoveryCode (K : Casing) (code : Str) : Except RecoveryCodeError Bytes :=
  let cleaned := cleaned K code
  if cleaned.length < 2 then
    throw ⟨[.text "recovery code is too short"]⟩
  else do
    let dataPart := cleaned.dropLast
    let checkPart := cleaned.getLast?
    let raw ← decodeCrockford dataPart
    let expectedCheck := checksumChar raw
    if raw.length ≠ recoveryCodeBytes then
      throw ⟨[.text "recovery code decodes to ", .int raw.length, .text " bytes, expected ",
        .int recoveryCodeBytes, .text " — likely missing or extra characters"]⟩
    else if checkPart ≠ some expectedCheck then
      throw ⟨[.text "recovery code checksum mismatch — likely mistyped"]⟩
    else return raw

-- The symbols of a code as digits

def dataSymbol (d : Fin 32) : CodePoint :=
  dataAlphabet.getD d 0

theorem dataIndex_dataSymbol : ∀ d : Fin 32, dataIndex (dataSymbol d) = some d.val := by
  decide

theorem exists_of_dataIndex {ch : CodePoint} {i : Nat} (h : dataIndex ch = some i) :
    ∃ d : Fin 32, ch = dataSymbol d ∧ i = d := by
  obtain ⟨hi, hc, -⟩ := List.findIdx?_eq_some_iff_getElem.mp h
  refine ⟨⟨i, hi⟩, ?_, rfl⟩
  rw [dataSymbol, List.getD_eq_getElem?_getD, List.getElem?_eq_getElem hi]
  exact (eq_of_beq hc).symm

theorem encodeCrockford_eq (data : Bytes) :
    encodeCrockford data = (Radix.digits 32 ((data.length * 8 + 4) / 5) data.toNatBE).map dataSymbol := by
  have h (n v : Nat) : (List.range n).map (fun i => dataAlphabet.getD ((v >>> (5 * (n - 1 - i))) &&& 0x1F) 0) =
      (Radix.digits 32 n v).map dataSymbol := by
    induction n
    case zero => rfl
    case succ n hi =>
      have hd : (v >>> (5 * n)) &&& 0x1F = (Fin.ofNat 32 (v / 32 ^ n)).val := by
        rw [Nat.shiftRight_eq_div_pow, pow_mul, Fin.val_ofNat]
        exact Nat.and_two_pow_sub_one_eq_mod _ 5
      rw [List.range_succ_eq_map, List.map_cons, List.map_map, Radix.digits, List.map_cons, ← hi]
      congr 1
      · exact congrArg (dataAlphabet.getD · 0) hd
      · refine List.map_congr_left fun i _ => ?_
        simp only [Function.comp, Nat.add_sub_cancel, Nat.succ_eq_add_one, Nat.sub_sub, Nat.add_comm 1 i]
  exact h _ _

theorem decodeChar_eq_ok {v w : Nat} {ch : CodePoint} :
    decodeChar v ch = .ok w ↔ ∃ d : Fin 32, ch = dataSymbol d ∧ w = v * 32 + d := by
  have hstep (d : Fin 32) : v <<< 5 ||| d.val = v * 32 + d := by
    rw [← Nat.shiftLeft_add_eq_or_of_lt d.isLt, Nat.shiftLeft_eq]
  constructor
  · intro h
    cases hc : dataIndex ch
    case none => simp [decodeChar, hc] at h
    case some i =>
      obtain ⟨d, rfl, rfl⟩ := exists_of_dataIndex hc
      simp only [decodeChar, hc, hstep] at h
      exact ⟨d, rfl, (Except.ok.inj h).symm⟩
  · rintro ⟨d, rfl, rfl⟩
    simp only [decodeChar, dataIndex_dataSymbol, hstep]

theorem decodeValue_eq_ok {text : Str} {v : Nat} : decodeValue text = .ok v ↔
    ∃ ds : List (Fin 32), text = ds.map dataSymbol ∧ v = Radix.value ds := by
  induction text using List.reverseRecOn generalizing v
  case nil =>
    constructor
    · rintro ⟨⟩
      exact ⟨[], rfl, rfl⟩
    · rintro ⟨ds, hd, rfl⟩
      cases List.map_eq_nil_iff.mp hd.symm
      rfl
  case append_singleton text ch hi =>
    have hd : decodeValue (text ++ [ch]) = decodeValue text >>= (decodeChar · ch) := by
      simp only [decodeValue, List.foldlM_append, List.foldlM_cons, List.foldlM_nil, bind_pure]
    rw [hd, Except.bind_eq_ok]
    constructor
    · rintro ⟨w, hw, h⟩
      obtain ⟨ds, rfl, rfl⟩ := hi.mp hw
      obtain ⟨d, rfl, rfl⟩ := decodeChar_eq_ok.mp h
      exact ⟨ds ++ [d], by rw [List.map_append, List.map_singleton], (Radix.value_concat d).symm⟩
    · rintro ⟨ds, hd, rfl⟩
      obtain rfl | ⟨ds, d, rfl⟩ := List.eq_nil_or_concat' ds
      · simp at hd
      · rw [List.map_append, List.map_singleton] at hd
        obtain ⟨rfl, hc⟩ := List.append_inj' hd rfl
        cases hc
        exact ⟨_, hi.mpr ⟨ds, rfl, rfl⟩, decodeChar_eq_ok.mpr ⟨d, rfl, Radix.value_concat d⟩⟩

theorem decodeCrockford_eq_ok {text : Str} {raw : Bytes} : decodeCrockford text = .ok raw ↔
    ∃ ds : List (Fin 32), text = ds.map dataSymbol ∧ Radix.value ds < 256 ^ (ds.length * 5 / 8) ∧
      raw = .ofNatBE (ds.length * 5 / 8) (Radix.value ds) := by
  rw [decodeCrockford, Except.bind_eq_ok]
  constructor
  · rintro ⟨v, hv, h⟩
    obtain ⟨ds, rfl, rfl⟩ := decodeValue_eq_ok.mp hv
    rw [List.length_map] at h
    by_cases hl : Radix.value ds < 256 ^ (ds.length * 5 / 8)
    case neg => simp [hl] at h
    case pos =>
      rw [if_pos hl] at h
      exact ⟨ds, rfl, hl, (Except.ok.inj h).symm⟩
  · rintro ⟨ds, rfl, hl, rfl⟩
    refine ⟨_, decodeValue_eq_ok.mpr ⟨ds, rfl, rfl⟩, ?_⟩
    rw [List.length_map, if_pos hl]
    rfl

theorem normalizeRecoveryCode_eq_ok {K : Casing} {code : Str} {raw : Bytes} :
    normalizeRecoveryCode K code = .ok raw ↔
      ∃ ds : List (Fin 32), cleaned K code = ds.map dataSymbol ++ [checksumChar raw] ∧
        ds.length * 5 / 8 = recoveryCodeBytes ∧ Radix.value ds < 256 ^ recoveryCodeBytes ∧
        raw = .ofNatBE recoveryCodeBytes (Radix.value ds) := by
  simp only [normalizeRecoveryCode]
  constructor
  · intro h
    by_cases hl : (cleaned K code).length < 2
    case pos => simp [hl] at h
    rw [if_neg hl] at h
    obtain ⟨raw', hr, h⟩ := Except.bind_eq_ok.mp h
    obtain ⟨ds, hd, hv, rfl⟩ := decodeCrockford_eq_ok.mp hr
    by_cases hn : ds.length * 5 / 8 = recoveryCodeBytes
    case neg => simp [hn] at h
    rw [hn] at h hv
    by_cases hc : (cleaned K code).getLast? = some (checksumChar (.ofNatBE recoveryCodeBytes (Radix.value ds)))
    case neg => simp [hc] at h
    simp only [Bytes.ofNatBE_length, ne_eq, not_true_eq_false, if_false, hc] at h
    cases Except.ok.inj h
    exact ⟨ds, hd ▸ (List.dropLast_append_getLast? _ hc).symm, hn, hv, rfl⟩
  · rintro ⟨ds, hd, hn, hv, rfl⟩
    have hl : ¬(cleaned K code).length < 2 := by
      rw [hd, List.length_append, List.length_map, List.length_singleton]
      simp only [recoveryCodeBytes] at hn
      omega
    have hr := decodeCrockford_eq_ok.mpr ⟨ds, rfl, hn ▸ hv, rfl⟩
    simp only [hd, if_neg (hd ▸ hl), List.dropLast_concat, hr, hn]
    simp [pure, Except.pure, bind, Except.bind]

end Vault
