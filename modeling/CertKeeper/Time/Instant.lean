import CertKeeper.Duration
import CertKeeper.Time.Calendar

/-!
# Instants

An `Instant` is a point in time: a whole number of `seconds` from the start of 1970 in
universal time, and `nanos` into that second. A second may be followed by a leap second,
which is counted as its second half: `nanos` from `10 ^ 9` on lie in the leap second.
`Instant.since` is the difference of two instants in nanoseconds and `Instant.add?` moves
an instant by such a difference as long as the date stays in the calendar.
-/

namespace CertKeeper

/-- A point in time. -/
structure Instant where
  seconds : Int
  nanos : Nat
  nanos_lt : nanos < 2 * nanosPerSecond
  deriving DecidableEq

namespace Instant

/-- The number of seconds of a day without a leap second. -/
def secondsPerDay : Nat := 86400

/-- The start of a second. -/
def ofSeconds (seconds : Int) : Instant := ⟨seconds, 0, by decide⟩

instance : Inhabited Instant := ⟨ofSeconds 0⟩

/-- `t` is earlier than `u`. -/
def before (t u : Instant) : Bool :=
  t.seconds < u.seconds || (t.seconds = u.seconds && t.nanos < u.nanos)

/-- `t` is not earlier than `u`. -/
def notBefore (t u : Instant) : Bool := !t.before u

/-- The instant lies in a leap second. -/
def inLeapSecond (t : Instant) : Bool := nanosPerSecond ≤ t.nanos

/-- The seconds since midnight. -/
def timeOfDay (t : Instant) : Nat := (t.seconds % secondsPerDay).toNat

/-- The date of an instant. -/
def date (t : Instant) : Date := Date.ofDayNumber (t.seconds / secondsPerDay)

/-- The nanoseconds from `u` to `t`. A leap second is counted if the instant within it
has the earlier time of the day. -/
def since (t u : Instant) : Int :=
  let leap : Int :=
    if u.timeOfDay < t.timeOfDay then
      if u.inLeapSecond then 1 else 0
    else if t.timeOfDay < u.timeOfDay then
      if t.inLeapSecond then -1 else 0
    else 0
  (t.seconds - u.seconds + leap) * nanosPerSecond + ((t.nanos : Int) - u.nanos)

/-- The first second of the first year of the calendar. -/
def firstSecond : Int := Date.dayNumber ⟨Date.firstYear, 1, 1⟩ * secondsPerDay

/-- The last second of the last year of the calendar. -/
def lastSecond : Int := Date.dayNumber ⟨Date.lastYear + 1, 1, 1⟩ * secondsPerDay - 1

/-- The instant `nanos` into a second, which may run over into a neighbour, if its date
is in the calendar. -/
def ofSecondsNanos? (seconds nanos : Int) : Option Instant :=
  let seconds := seconds + nanos / nanosPerSecond
  if firstSecond ≤ seconds ∧ seconds ≤ lastSecond then
    some ⟨seconds, (nanos % nanosPerSecond).toNat, by
      have := Int.emod_lt_of_pos nanos (show (0 : Int) < nanosPerSecond by decide)
      simp only [nanosPerSecond] at *
      omega⟩
  else
    none

/-- The instant `delta` nanoseconds later, if its date is in the calendar. From within a
leap second one leaves it by a move that reaches its end or goes back by a second. -/
def add? (t : Instant) (delta : Int) : Option Instant :=
  let whole := delta.tdiv nanosPerSecond
  let part := delta.tmod nanosPerSecond
  if t.inLeapSecond then
    if 0 < whole ∨ (0 < part ∧ 2 * nanosPerSecond ≤ t.nanos + part) then
      ofSecondsNanos? (t.seconds + whole) (t.nanos - nanosPerSecond + part)
    else if whole < 0 then
      ofSecondsNanos? (t.seconds + 1 + whole) (t.nanos - nanosPerSecond + part)
    else if h : (t.nanos + part).toNat < 2 * nanosPerSecond then
      some ⟨t.seconds, (t.nanos + part).toNat, h⟩
    else
      none
  else
    ofSecondsNanos? (t.seconds + whole) (t.nanos + part)

/-- The start of the second of an instant, or of the leap second. -/
def truncate (t : Instant) : Instant :=
  if t.inLeapSecond then ⟨t.seconds, nanosPerSecond, by decide⟩ else ofSeconds t.seconds

/-- The nanoseconds since the start of 1970. -/
def unixNanos (t : Instant) : Int := t.seconds * nanosPerSecond + t.nanos

end Instant

end CertKeeper
