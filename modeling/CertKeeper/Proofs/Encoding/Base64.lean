import CertKeeper.Encoding.Base64
import CertKeeper.Text.Blank

/-!
# Reading base 64

`Base64.decode?` reads what `Base64.encode` writes (`Base64.decode?_encode`). What is written
are symbols and fillers (`Base64.Symbolic`), none of which is blank or ends a line.
-/

namespace CertKeeper.Base64

/-- The character is one of those that octets are written with. -/
def Symbolic (c : Char) : Prop := c = '=' ∨ ∃ n < 64, c = symbol n

/-- The number of the symbol of a number is that number. -/
theorem value?_symbol {n : Nat} (h : n < 64) :
  value? (symbol n) = some n
  := by
  have key : ∀ n < 64, value? (symbol n) = some n := by decide
  apply key n h

theorem symbol_ne_filler {n : Nat} (h : n < 64) :
  symbol n ≠ '='
  := by
  have key : ∀ n < 64, symbol n ≠ '=' := by decide
  apply key n h

namespace Symbolic

variable {c : Char}

theorem isBlank_eq_false (h : Symbolic c) :
  isBlank c = false
  := by
  have key : ∀ n < 64, isBlank (symbol n) = false := by decide
  obtain rfl | ⟨n, hn, rfl⟩ := h
  · rfl
  · apply key n hn

theorem ne_dash (h : Symbolic c) :
  c ≠ '-'
  := by
  have key : ∀ n < 64, symbol n ≠ '-' := by decide
  obtain rfl | ⟨n, hn, rfl⟩ := h
  · decide
  · apply key n hn

end Symbolic

/-- Only symbols and fillers are written. -/
theorem symbolic_of_mem_encode {bytes : Octets} {c : Char} (h : c ∈ encode bytes) :
  Symbolic c
  := by
  induction bytes using encode.induct with
  | case1 => cases h
  | case2 a =>
    have := a.toNat_lt
    simp only [encode, List.mem_cons, List.not_mem_nil, or_false] at h
    rcases h with rfl | rfl | rfl | rfl
    · exact .inr ⟨_, by omega, rfl⟩
    · exact .inr ⟨_, by omega, rfl⟩
    · exact .inl rfl
    · exact .inl rfl
  | case3 a b =>
    have := a.toNat_lt
    have := b.toNat_lt
    simp only [encode, List.mem_cons, List.not_mem_nil, or_false] at h
    rcases h with rfl | rfl | rfl | rfl
    · exact .inr ⟨_, by omega, rfl⟩
    · exact .inr ⟨_, by omega, rfl⟩
    · exact .inr ⟨_, by omega, rfl⟩
    · exact .inl rfl
  | case4 a b c' rest ih =>
    have := a.toNat_lt
    have := b.toNat_lt
    have := c'.toNat_lt
    simp only [encode, List.mem_cons] at h
    rcases h with rfl | rfl | rfl | rfl | h
    · exact .inr ⟨_, by omega, rfl⟩
    · exact .inr ⟨_, by omega, rfl⟩
    · exact .inr ⟨_, by omega, rfl⟩
    · exact .inr ⟨_, by omega, rfl⟩
    · apply ih h

theorem encode_ne_nil (bytes : Octets) (h : bytes ≠ []) :
  encode bytes ≠ []
  := by
  induction bytes using encode.induct with
  | case1 => exact absurd rfl h
  | case2 a => simp [encode]
  | case3 a b => simp [encode]
  | case4 a b c rest ih => simp [encode]

theorem octet_eq {n : Nat} {a : UInt8} (h : n = a.toNat) :
  octet n = a
  := by
  rw [octet, h, UInt8.ofNat_toNat]

/-- A full group of three octets is read back. -/
theorem decodeGroup?_symbol (a b c : UInt8) :
  decodeGroup? (symbol (a.toNat / 4)) (symbol (a.toNat % 4 * 16 + b.toNat / 16))
      (symbol (b.toNat % 16 * 4 + c.toNat / 64)) (symbol (c.toNat % 64))
    = some (a, b, c)
  := by
  have := a.toNat_lt
  have := b.toNat_lt
  have := c.toNat_lt
  simp only [decodeGroup?, value?_symbol (show a.toNat / 4 < 64 by omega),
    value?_symbol (show a.toNat % 4 * 16 + b.toNat / 16 < 64 by omega),
    value?_symbol (show b.toNat % 16 * 4 + c.toNat / 64 < 64 by omega),
    value?_symbol (show c.toNat % 64 < 64 by omega), Option.bind_eq_bind, Option.bind_some]
  rw [octet_eq (a := a) (by omega), octet_eq (a := b) (by omega), octet_eq (a := c) (by omega)]

/-- What is written is read back. -/
theorem decode?_encode (bytes : Octets) :
  decode? (encode bytes) = some bytes
  := by
  induction bytes using encode.induct with
  | case1 => rfl
  | case2 a =>
    have := a.toNat_lt
    simp only [encode, decode?, List.isEmpty_nil, and_self, if_true, decodeEnd?,
      value?_symbol (show a.toNat / 4 < 64 by omega),
      value?_symbol (show a.toNat % 4 * 16 < 64 by omega), Option.bind_eq_bind, Option.bind_some]
    rw [if_pos (by omega), octet_eq (a := a) (by omega)]
  | case3 a b =>
    have := a.toNat_lt
    have := b.toNat_lt
    simp only [encode, decode?, List.isEmpty_nil, and_self, if_true, decodeEnd?,
      value?_symbol (show a.toNat / 4 < 64 by omega),
      value?_symbol (show a.toNat % 4 * 16 + b.toNat / 16 < 64 by omega),
      value?_symbol (show b.toNat % 16 * 4 < 64 by omega), Option.bind_eq_bind, Option.bind_some]
    rw [if_neg (symbol_ne_filler (by omega)), if_pos (by omega), octet_eq (a := a) (by omega),
      octet_eq (a := b) (by omega)]
  | case4 a b c rest ih =>
    have := c.toNat_lt
    have hfiller : symbol (c.toNat % 64) ≠ '=' := symbol_ne_filler (by omega)
    simp only [encode, decode?, hfiller, and_false, if_false, decodeGroup?_symbol, ih,
      Option.bind_eq_bind, Option.bind_some]

end CertKeeper.Base64
