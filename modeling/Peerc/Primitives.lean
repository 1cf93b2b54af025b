import Peerc.Lib.Crypto
import Peerc.Lib.Json.Tokens

-- What the program takes from the interpreter and from the `cryptography` package
structure Primitives where
  ed25519 : SignatureScheme
  x25519  : KeyExchange
  aead    : Aead
  sha256  : Bytes → Bytes
  floats  : FloatFormat

-- A number is written as its bit pattern with a fraction of zero.
def FloatFormat.transparent : FloatFormat where
  repr x  := ⟨false, x.bits.toNat, some ⟨[0], by simp⟩, none, .inl rfl⟩
  parse s := ⟨.ofNat (ofDecimal (s.takeWhile isDigit))⟩
  parse_repr x _ := by
    have hd : ∀ c ∈ decimal x.bits.toNat, isDigit c := fun _ => isDigit_of_mem_decimal
    have ht : List.takeWhile isDigit (0x2E :: FloatToken.digits [0] ++ []) = [] := rfl
    simp only [FloatToken.render, Bool.false_eq_true, if_false, List.nil_append, List.append_assoc]
    rw [List.takeWhile_append_of_pos hd, ht, List.append_nil, ofDecimal_decimal, UInt64.ofNat_toNat]

-- Primitives that evaluate. A digest is its input.
def Primitives.transparent : Primitives where
  ed25519 := .transparent
  x25519  := .transparent
  aead    := .transparent
  sha256  := id
  floats  := .transparent
