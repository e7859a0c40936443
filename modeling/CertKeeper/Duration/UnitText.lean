import CertKeeper.Duration
import CertKeeper.Text.Blank
import CertKeeper.Text.Decimal
import CertKeeper.Text.Numeric

/-!
# Durations as counts of units

A text such as `1h 30m` is a sum of groups, each a count and a unit. `Duration.read`
reads it: blanks are dropped, a group is a run of numeric characters and the other
characters after it, and in each group the count is judged before the unit.
`Duration.write` writes a duration as one count of the largest unit that divides it.
-/

namespace CertKeeper

/-- What makes the count of a group no number. -/
inductive CountFault where
  | empty
  | invalidDigit
  | tooLarge
  deriving DecidableEq

/-- What makes a text no duration. -/
inductive DurationFault where
  | count (fault : CountFault)
  | unit
  | overflow
  deriving DecidableEq

/-- The name of a fault. -/
def CountFault.name : CountFault → String
  | .empty => "Empty"
  | .invalidDigit => "InvalidDigit"
  | .tooLarge => "PosOverflow"

/-- The text of a fault. -/
def DurationFault.text : DurationFault → String
  | .count fault => "ParseInt(ParseIntError \x7b kind: " ++ fault.name ++ " \x7d)"
  | .unit => "Format"
  | .overflow => "Overflow"

/-- A unit of time. -/
inductive TimeUnit where
  | year | week | day | hour | minute | second | milli | micro | nano
  deriving DecidableEq

namespace TimeUnit

/-- The units from the largest to the smallest. -/
def all : List TimeUnit := [year, week, day, hour, minute, second, milli, micro, nano]

/-- The sign of a unit. -/
def symbol : TimeUnit → String
  | year => "y"
  | week => "w"
  | day => "d"
  | hour => "h"
  | minute => "m"
  | second => "s"
  | milli => "ms"
  | micro => "us"
  | nano => "ns"

/-- The nanoseconds of a unit. A year is a mean tropical year, cut to whole seconds. -/
def nanos : TimeUnit → Nat
  | year => 31556926 * nanosPerSecond
  | week => 604800 * nanosPerSecond
  | day => 86400 * nanosPerSecond
  | hour => 3600 * nanosPerSecond
  | minute => 60 * nanosPerSecond
  | second => nanosPerSecond
  | milli => 1000000
  | micro => 1000
  | nano => 1

/-- The unit of a sign. -/
def ofSymbol? (text : String) : Option TimeUnit := all.find? (fun unit => unit.symbol = text)

end TimeUnit

namespace Duration

/-- The number of 64-bit counts. -/
def countBound : Nat := 18446744073709551616

/-- The count of a list of digits, after `acc` has been read. A digit that is none is
found before the count grows too large. -/
def countFrom (acc : Nat) : List Char → Except CountFault Nat
  | [] => .ok acc
  | c :: rest =>
    match Decimal.digitValue? c with
    | none => .error .invalidDigit
    | some d => if 10 * acc + d < countBound then countFrom (10 * acc + d) rest else .error .tooLarge

/-- The count of a group. -/
def readCount (cs : List Char) : Except CountFault Nat :=
  if cs.isEmpty then .error .empty else countFrom 0 cs

/-- The characters of a count and of the unit after it. -/
abbrev Group := List Char × List Char

/-- The first group of a text without blanks, and the groups after it. A group ends where
a numeric character follows another one. -/
def groups : List Char → Group × List Group
  | [] => (([], []), [])
  | c :: rest =>
    match groups rest with
    | ((count, unit), more) =>
      if isNumeric c then ((c :: count, unit), more)
      else if count.isEmpty then (([], c :: unit), more)
      else (([], [c]), (count, unit) :: more)

/-- The duration of a group. -/
def readGroup (group : Group) : Except DurationFault Duration := do
  let count ← (readCount group.1).mapError .count
  match TimeUnit.ofSymbol? (String.ofList group.2) with
  | none => .error .unit
  | some unit =>
    match ofNanos? (count * unit.nanos) with
    | none => .error .overflow
    | some d => .ok d

/-- The sum of the groups, after the duration `sum`. -/
def readFrom (sum : Duration) : List Group → Except DurationFault Duration
  | [] => .ok sum
  | group :: rest => do
    let d ← readGroup group
    match sum.add? d with
    | none => .error .overflow
    | some sum => readFrom sum rest

/-- The duration of a text. -/
def read (text : String) : Except DurationFault Duration :=
  let (first, more) := groups (text.toList.filter (fun c => !isBlank c))
  readFrom zero (first :: more)

/-- The largest unit that divides a duration. -/
def largestUnit (d : Duration) : TimeUnit :=
  (TimeUnit.all.find? (fun unit => d.nanos % unit.nanos = 0)).getD .nano

/-- The text of a duration, with one count of the largest unit that divides it. -/
def write (d : Duration) : String :=
  Decimal.text (d.nanos / d.largestUnit.nanos) ++ d.largestUnit.symbol

end Duration

end CertKeeper
