import CertKeeper.Encoding.Der
import CertKeeper.Text.Decimal
import CertKeeper.Time.Instant

/-!
# Times in certificates

A time in a certificate is a text of digits that ends in `Z`, with a year of two digits
for the years 1950 to 2049 and of four digits for others. Seconds may be missing, and a
year of four digits allows up to three digits of a fraction, which counts for nothing.
`CertificateTime.read?` gives the seconds since the start of 1970 and
`CertificateTime.write` writes them.
-/

namespace CertKeeper.CertificateTime

/-- The tag number of times with a year of two digits. -/
def shortTag : Nat := 23

/-- The tag number of times with a year of four digits. -/
def longTag : Nat := 24

/-- The first two characters as a number, and the rest. -/
def pair? : List Char → Option (Nat × List Char)
  | a :: b :: rest => (Decimal.value? [a, b]).map (fun n => (n, rest))
  | _ => none

/-- The end of a time with an optional fraction of at most three digits. -/
def fractionEnd (cs : List Char) : Bool :=
  match cs with
  | '.' :: rest => (rest.takeWhile Char.isDigit).length ≤ 3 && rest.dropWhile Char.isDigit = ['Z']
  | _ => cs = ['Z']

/-- The seconds of a time after its year. -/
def withYear? (year : Int) (fraction : Bool) (cs : List Char) : Option Int := do
  let (month, cs) ← pair? cs
  let (day, cs) ← pair? cs
  let (hour, cs) ← pair? cs
  let (minute, cs) ← pair? cs
  let (second, cs) ← if cs = ['Z'] then some (0, cs) else pair? cs
  let date ← Date.ofFields? year month day
  if hour < 24 ∧ minute < 60 ∧ second < 60 ∧ (cs = ['Z'] ∨ (fraction ∧ fractionEnd cs)) then
    some (date.dayNumber * Instant.secondsPerDay + hour * 3600 + minute * 60 + second)
  else
    none

/-- The characters of octets. -/
def characters (bytes : Octets) : List Char := bytes.map (fun b => Char.ofNat b.toNat)

/-- The seconds of an element. -/
def ofElement? (e : Der.Element) : Option Int :=
  if e.tag = shortTag then do
    let (year, cs) ← pair? (characters e.content)
    withYear? (if year < 50 then 2000 + year else 1900 + year) false cs
  else if e.tag = longTag then do
    let (century, cs) ← pair? (characters e.content)
    let (year, cs) ← pair? cs
    withYear? (century * 100 + year) true cs
  else
    none

/-- The time at the start of octets. -/
def read? (bytes : Octets) : Option (Int × Octets) := do
  let (e, rest) ← Der.element? bytes
  return (← ofElement? e, rest)

/-- The octets of a list of ASCII characters. -/
def octets (cs : List Char) : Octets := cs.map (fun c => UInt8.ofNat c.toNat)

/-- The octets of a time between the years 0 and 9999. -/
def write (seconds : Int) : Octets :=
  let t := Instant.ofSeconds seconds
  let two := Decimal.paddedDigits 2
  let rest := two t.date.month ++ two t.date.day ++ two (t.timeOfDay / 3600)
    ++ two (t.timeOfDay / 60 % 60) ++ two (t.timeOfDay % 60) ++ ['Z']
  if 1950 ≤ t.date.year ∧ t.date.year < 2050 then
    Der.write 23 (octets (two (t.date.year % 100).toNat ++ rest))
  else
    Der.write 24 (octets (Decimal.paddedDigits 4 t.date.year.toNat ++ rest))

end CertKeeper.CertificateTime
