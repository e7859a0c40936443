import CertKeeper.Error
import CertKeeper.Time.Instant

/-!
# Diagnostics

`Diagnostics` is what is known about the passes so far: when the last one ended and with
which error, how many definitions it had, and how many passes there were. The process
counts as healthy unless the last pass failed.
-/

namespace CertKeeper

/-- What is known about the passes so far. -/
structure Diagnostics where
  lastSync : Option Instant := none
  lastError : Option String := none
  definitions : Nat := 0
  syncs : Nat := 0

namespace Diagnostics

/-- The diagnostics after a pass over a number of definitions. -/
def record (d : Diagnostics) (now : Instant) (definitions : Nat) (result : Except Error Unit) :
    Diagnostics where
  lastSync := some now
  lastError := match result with
    | .ok () => none
    | .error e => some e.message
  definitions := definitions
  syncs := d.syncs + 1

/-- The last pass did not fail. -/
def healthy (d : Diagnostics) : Bool := d.lastError.isNone

end Diagnostics

end CertKeeper
