import CertKeeper.Text.Decimal
import CertKeeper.Text.Hexadecimal

/-!
# Texts that look like other values

A plain scalar that reads as a number, as a truth value or as nothing is not a text to
every reader. `looksUntyped` tells such texts, and texts of digits after a zero, which
some take for numbers.
-/

namespace CertKeeper.Yaml

/-- The text is a word for nothing or for a truth value. -/
def isKeyword (text : String) : Bool :=
  ["", "~", "null", "Null", "NULL", "true", "True", "TRUE", "false", "False", "FALSE"].contains text

/-- The value of digits of a base. -/
def digitsValue? (base : Nat) (digits : List Char) : Option Nat :=
  if digits.isEmpty then none
  else digits.foldl (fun value c => do
    let value ← value
    let d ← Hexadecimal.digitValue? c
    if d < base then some (base * value + d) else none) (some 0)

/-- The bases that are written as a zero and a letter. -/
def baseOf? : Char → Option Nat
  | 'x' => some 16
  | 'o' => some 8
  | 'b' => some 2
  | _ => none

/-- The text is a whole number of at most 128 bits with the mark of its base. -/
def isMarkedInteger (cs : List Char) : Bool :=
  let below (bound : Nat) : List Char → Bool
    | '0' :: mark :: digits =>
      ((baseOf? mark).bind (fun base => digitsValue? base digits)).any (fun n => n < bound)
    | _ => false
  match cs with
  | '-' :: cs => below (Nat.pow 2 127 + 1) cs
  | '+' :: cs => below (Nat.pow 2 128) cs
  | cs => below (Nat.pow 2 128) cs

/-- The text is a zero and further digits, perhaps after a sign. -/
def isZeroPadded (cs : List Char) : Bool :=
  let unsigned := match cs with
    | '-' :: cs => cs
    | '+' :: cs => cs
    | cs => cs
  1 < unsigned.length && unsigned.head? = some '0' && unsigned.all Char.isDigit

/-- A decimal number: its digits as a whole number, and the power of ten to multiply
with. -/
structure Scaled where
  digits : Nat
  exponent : Int

/-- The exponent at the end of a number. -/
def exponent? : List Char → Option Int
  | [] => some 0
  | e :: cs =>
    if e = 'e' || e = 'E' then
      match cs with
      | '-' :: cs => (digitsValue? 10 cs).map (fun n => -(n : Int))
      | '+' :: cs => (digitsValue? 10 cs).map (fun n => (n : Int))
      | cs => (digitsValue? 10 cs).map (fun n => (n : Int))
    else none

/-- The number of a text without a sign. -/
def scaled? (cs : List Char) : Option Scaled := do
  let whole := cs.takeWhile Char.isDigit
  let rest := cs.drop whole.length
  let (fraction, rest) := match rest with
    | '.' :: rest => (rest.takeWhile Char.isDigit, rest.dropWhile Char.isDigit)
    | rest => ([], rest)
  let digits ← digitsValue? 10 (whole ++ fraction)
  let exponent ← exponent? rest
  return ⟨digits, exponent - fraction.length⟩

/-- The bound from which numbers are too large for 64-bit floating point. -/
def floatBound : Nat := Nat.pow 2 1024 - Nat.pow 2 970

/-- The number fits into 64-bit floating point. Its number of places tells in most
cases. -/
def Scaled.isFinite (x : Scaled) : Bool :=
  let places : Int := (Decimal.digits x.digits).length + x.exponent
  if x.digits = 0 || places ≤ 308 then true
  else if 310 < places then false
  else if 0 ≤ x.exponent then x.digits * Nat.pow 10 x.exponent.toNat < floatBound
  else x.digits < floatBound * Nat.pow 10 (-x.exponent).toNat

/-- The text is a number of floating point. -/
def isFloat (text : String) : Bool :=
  [".inf", ".Inf", ".INF", "+.inf", "+.Inf", "+.INF", "-.inf", "-.Inf", "-.INF",
    ".nan", ".NaN", ".NAN"].contains text
  || (scaled? (match text.toList with
    | '-' :: cs => cs
    | '+' :: cs => cs
    | cs => cs)).any Scaled.isFinite

/-- The text may be taken for something else than a text. -/
def looksUntyped (text : String) : Bool :=
  isKeyword text || isMarkedInteger text.toList || isZeroPadded text.toList || isFloat text

end CertKeeper.Yaml
