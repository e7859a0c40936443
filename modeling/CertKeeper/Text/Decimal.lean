/-!
# Decimal numbers

Texts of natural numbers and years. `Decimal.padded` writes a number with at least a
given number of digits, and `Decimal.value?` reads a run of ASCII digits.
-/

namespace CertKeeper.Decimal

/-- The ASCII digits of a number, most significant first. -/
def digits (n : Nat) : List Char := Nat.toDigits 10 n

/-- The text of a number. -/
def text (n : Nat) : String := String.ofList (digits n)

/-- The text of an integer, with a sign if it is negative. -/
def signed (n : Int) : String := (if n < 0 then "-" else "") ++ text n.natAbs

/-- The digits of a number after as many zeros as fill a width. -/
def paddedDigits (width n : Nat) : List Char :=
  List.replicate (width - (digits n).length) '0' ++ digits n

/-- The text of a number with at least `width` digits. -/
def padded (width n : Nat) : String := String.ofList (paddedDigits width n)

/-- The value of an ASCII digit. -/
def digitValue? (c : Char) : Option Nat :=
  if c.isDigit then some (c.toNat - '0'.toNat) else none

/-- The value of a list of ASCII digits, after `acc` has been read. -/
def valueFrom? (acc : Nat) : List Char → Option Nat
  | [] => some acc
  | c :: rest => (digitValue? c).bind (fun d => valueFrom? (10 * acc + d) rest)

/-- The value of a list of ASCII digits. -/
def value? (cs : List Char) : Option Nat := valueFrom? 0 cs

end CertKeeper.Decimal
