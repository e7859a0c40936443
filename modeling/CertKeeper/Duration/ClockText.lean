import CertKeeper.Duration
import CertKeeper.Text.Decimal

/-!
# Durations in hours, minutes and seconds

`Duration.clockText` writes a duration of at least a second as hours, minutes and
seconds, leaving out leading zero parts, and a shorter one in the largest of milli-,
micro- and nanoseconds that has a whole part. Seconds and the small units have a decimal
fraction without trailing zeros.
-/

namespace CertKeeper.Duration

/-- A whole number and a fraction of `digits` decimal places, without trailing zeros. -/
def withFraction (whole fraction digits : Nat) : String :=
  if fraction = 0 then
    Decimal.text whole
  else
    Decimal.text whole ++ "." ++ String.ofList
      ((Decimal.paddedDigits digits fraction).reverse.dropWhile (· = '0')).reverse

/-- The text of a duration in hours, minutes and seconds, or in a unit below a second. -/
def clockText (d : Duration) : String :=
  if d.nanos = 0 then
    "0s"
  else if d.nanos < nanosPerSecond then
    if 1000000 ≤ d.nanos then
      withFraction (d.nanos / 1000000) (d.nanos % 1000000) 6 ++ "ms"
    else if 1000 ≤ d.nanos then
      withFraction (d.nanos / 1000) (d.nanos % 1000) 3 ++ "µs"
    else
      Decimal.text d.nanos ++ "ns"
  else
    let hours := d.seconds / 3600
    let minutes := d.seconds % 3600 / 60
    let seconds := withFraction (d.seconds % 60) d.fraction 9
    if 0 < hours then
      Decimal.text hours ++ "h" ++ Decimal.text minutes ++ "m" ++ seconds ++ "s"
    else if 0 < minutes then
      Decimal.text minutes ++ "m" ++ seconds ++ "s"
    else
      seconds ++ "s"

end CertKeeper.Duration
