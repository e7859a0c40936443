import CertKeeper.Text.Decimal
import CertKeeper.Time.Instant

/-!
# Time stamps

The texts of instants as RFC 3339 lays them down. `Rfc3339.read?` reads a time stamp
with any offset from universal time. `Rfc3339.writeSeconds` writes an instant to the
second, `Rfc3339.write` with as many digits as it needs, in groups of three, and
`Rfc3339.display` in the form for people, with a space between date and time.
-/

namespace CertKeeper.Rfc3339

/-- The first `n` characters of a text as a number, and the rest. -/
def number? (n : Nat) (cs : List Char) : Option (Nat × List Char) :=
  if n ≤ cs.length then
    (Decimal.value? (cs.take n)).map (fun value => (value, cs.drop n))
  else
    none

/-- The text after an expected character. -/
def after? (c : Char) : List Char → Option (List Char)
  | [] => none
  | c' :: rest => if c' = c then some rest else none

/-- The nanoseconds of the digits after the point. Digits after the ninth are dropped. -/
def fractionNanos? (digits : List Char) : Option Nat :=
  (Decimal.value? (digits.take 9)).map (fun value => value * Nat.pow 10 (9 - digits.length))

/-- The fraction of a second, if the text starts with a point, and the rest. -/
def fraction? : List Char → Option (Nat × List Char)
  | '.' :: rest =>
    let digits := rest.takeWhile Char.isDigit
    if digits.isEmpty then
      none
    else
      (fractionNanos? digits).map (fun nanos => (nanos, rest.drop digits.length))
  | cs => some (0, cs)

/-- The hours and minutes of an offset, in seconds. -/
def offsetSize? (cs : List Char) : Option Int := do
  let (hours, cs) ← number? 2 cs
  let cs ← after? ':' cs
  let (minutes, cs) ← number? 2 cs
  if cs.isEmpty ∧ minutes < 60 ∧ hours < 24 then
    some (hours * 3600 + minutes * 60)
  else
    none

/-- The offset from universal time that a text names, in seconds. -/
def offset? : List Char → Option Int
  | ['Z'] | ['z'] => some 0
  | '+' :: cs => offsetSize? cs
  | '-' :: cs | '−' :: cs => (offsetSize? cs).map (- ·)
  | _ => none

/-- The character stands between date and time. -/
def isSeparator (c : Char) : Bool := c = 'T' || c = 't' || c = ' '

/-- The instant of the fields of a time stamp. The second 60 is a leap second after the second
59. -/
def ofFields? (date : Date) (hour minute second nanos : Nat) (offset : Int) : Option Instant :=
  let leap := if second = 60 then 1 else 0
  let seconds := date.dayNumber * Instant.secondsPerDay + hour * 3600 + minute * 60
    + (second - leap : Nat) - offset
  if h : (hour < 24 ∧ minute < 60 ∧ second ≤ 60) ∧ nanos + leap * nanosPerSecond < 2 * nanosPerSecond then
    some ⟨seconds, nanos + leap * nanosPerSecond, h.2⟩
  else
    none

/-- The instant of a time stamp. -/
def read? (text : String) : Option Instant := do
  let cs := text.toList
  let (year, cs) ← number? 4 cs
  let cs ← after? '-' cs
  let (month, cs) ← number? 2 cs
  let cs ← after? '-' cs
  let (day, cs) ← number? 2 cs
  let date ← Date.ofFields? year month day
  let separator ← cs.head?
  if !isSeparator separator then none
  let (hour, cs) ← number? 2 cs.tail
  let cs ← after? ':' cs
  let (minute, cs) ← number? 2 cs
  let cs ← after? ':' cs
  let (second, cs) ← number? 2 cs
  let (nanos, cs) ← fraction? cs
  let offset ← offset? cs
  ofFields? date hour minute second nanos offset

/-- A year of four digits, or with a sign and at least four digits. -/
def yearText (year : Int) : String :=
  if 0 ≤ year ∧ year ≤ 9999 then
    Decimal.padded 4 year.toNat
  else
    (if year < 0 then "-" else "+") ++ Decimal.padded 4 year.natAbs

/-- The date of an instant. -/
def dateText (t : Instant) : String :=
  yearText t.date.year ++ "-" ++ Decimal.padded 2 t.date.month ++ "-"
    ++ Decimal.padded 2 t.date.day

/-- The time of the day of an instant, in whole seconds. A leap second is the second 60. -/
def timeText (t : Instant) : String :=
  let second := t.timeOfDay % 60 + (if t.inLeapSecond then 1 else 0)
  Decimal.padded 2 (t.timeOfDay / 3600) ++ ":" ++ Decimal.padded 2 (t.timeOfDay / 60 % 60)
    ++ ":" ++ Decimal.padded 2 second

/-- The fraction of a second, with the fewest of 0, 3, 6 and 9 digits that are exact. -/
def fractionText (t : Instant) : String :=
  let nanos := t.nanos % nanosPerSecond
  if nanos = 0 then ""
  else if nanos % 1000000 = 0 then "." ++ Decimal.padded 3 (nanos / 1000000)
  else if nanos % 1000 = 0 then "." ++ Decimal.padded 6 (nanos / 1000)
  else "." ++ Decimal.padded 9 nanos

/-- The time stamp of the second of an instant. -/
def writeSeconds (t : Instant) : String := dateText t ++ "T" ++ timeText t ++ "Z"

/-- The time stamp of an instant. -/
def write (t : Instant) : String := dateText t ++ "T" ++ timeText t ++ fractionText t ++ "Z"

/-- An instant as messages show it. -/
def display (t : Instant) : String :=
  dateText t ++ " " ++ timeText t ++ fractionText t ++ " UTC"

end CertKeeper.Rfc3339
