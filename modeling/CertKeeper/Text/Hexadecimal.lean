/-!
# Hexadecimal digits
-/

namespace CertKeeper.Hexadecimal

/-- The value of a digit. -/
def digitValue? (c : Char) : Option Nat :=
  if c.isDigit then some (c.toNat - 48)
  else if 'a' ≤ c && c ≤ 'f' then some (c.toNat - 87)
  else if 'A' ≤ c && c ≤ 'F' then some (c.toNat - 55)
  else none

/-- The value of a list of digits. -/
def value? (digits : List Char) : Option Nat :=
  digits.foldl (fun value c => do return 16 * (← value) + (← digitValue? c)) (some 0)

/-- The digit of a value below sixteen, with capital letters. -/
def digit (n : Nat) : Char := Char.ofNat (if n < 10 then 48 + n else 55 + n)

/-- The lowest digits of a number, as many as `width`. -/
def padded : Nat → Nat → List Char
  | 0, _ => []
  | width + 1, n => padded width (n / 16) ++ [digit (n % 16)]

end CertKeeper.Hexadecimal
