import CertKeeper.Text.Hexadecimal
import Mathlib.Algebra.GroupWithZero.Nat

/-!
# Laws of hexadecimal digits

As many digits as a number needs are read as that number (`Hexadecimal.value?_padded`).
-/

namespace CertKeeper.Hexadecimal

theorem digitValue?_digit {n : Nat} (h : n < 16) :
  digitValue? (digit n) = some n
  := by
  have hall : ∀ n : Fin 16, digitValue? (digit n) = some n.val := by decide
  apply hall ⟨n, h⟩

theorem length_padded (width n : Nat) :
  (padded width n).length = width
  := by
  induction width generalizing n with
  | zero => rfl
  | succ width ih => rw [padded, List.length_append, ih, List.length_singleton]

theorem value?_padded {width n : Nat} (h : n < 16 ^ width) :
  value? (padded width n) = some n
  := by
  induction width generalizing n with
  | zero =>
    obtain rfl : n = 0 := by simpa using h
    rfl
  | succ width ih =>
    have hrest : n / 16 < 16 ^ width := Nat.div_lt_of_lt_mul (by rwa [← Nat.pow_succ'])
    have hdigit := digitValue?_digit (Nat.mod_lt n (show 0 < 16 by decide))
    have hvalue := ih hrest
    rw [value?] at hvalue
    rw [value?, padded, List.foldl_append, hvalue]
    simp only [List.foldl_cons, List.foldl_nil, hdigit, Option.bind_eq_bind, Option.bind_some]
    rw [Nat.div_add_mod]
    rfl

/-- The digits of a number are ASCII characters. -/
theorem toNat_of_mem_padded {width n : Nat} {c : Char} (h : c ∈ padded width n) :
  0x30 ≤ c.toNat ∧ c.toNat ≤ 0x46
  := by
  have hall : ∀ n : Fin 16, 0x30 ≤ (digit n).toNat ∧ (digit n).toNat ≤ 0x46 := by decide
  induction width generalizing n with
  | zero => cases h
  | succ width ih =>
    rw [padded, List.mem_append, List.mem_singleton] at h
    rcases h with h | rfl
    · apply ih h
    · apply hall ⟨n % 16, Nat.mod_lt n (by decide)⟩

end CertKeeper.Hexadecimal
