/-!
# Durations

A `Duration` is a length of time in nanoseconds, shorter than `2 ^ 64` seconds. Its
`seconds` are the whole seconds and its `fraction` the nanoseconds beyond them.
-/

namespace CertKeeper

/-- The number of nanoseconds of a second. -/
def nanosPerSecond : Nat := 1000000000

/-- The number of seconds that is too large for a duration. -/
def secondsBound : Nat := 18446744073709551616

/-- A length of time below `2 ^ 64` seconds. -/
structure Duration where
  nanos : Nat
  nanos_lt : nanos < secondsBound * nanosPerSecond
  deriving DecidableEq

namespace Duration

/-- The duration of a number of nanoseconds, if it is short enough. -/
def ofNanos? (n : Nat) : Option Duration :=
  if h : n < secondsBound * nanosPerSecond then some ⟨n, h⟩ else none

/-- The whole seconds of a duration. -/
def seconds (d : Duration) : Nat := d.nanos / nanosPerSecond

/-- The nanoseconds of a duration beyond its whole seconds. -/
def fraction (d : Duration) : Nat := d.nanos % nanosPerSecond

/-- No time at all. -/
def zero : Duration := ⟨0, by decide⟩

instance : Inhabited Duration := ⟨zero⟩

/-- The sum, if it is short enough. -/
def add? (d e : Duration) : Option Duration := ofNanos? (d.nanos + e.nanos)

end Duration

end CertKeeper
