import CertKeeper.CommandLine.Option

/-!
# The options of the sample generator
-/

namespace CertKeeper.CommandLine

/-- What a command line of the sample generator says. -/
structure SampleOptions where
  ns : String
  service : String
  output : Option String

namespace SampleOptions

/-- The options that there are. -/
def table : List OptionSpec := [
  { name := "namespace", short := some 'n' },
  { name := "service", short := some 's' },
  { name := "output", short := some 'o' }]

/-- The options of a command line. -/
def read (arguments : List String) : Except UsageFault SampleOptions := do
  let found ← Options.read table (fun _ => none) arguments
  return {
    ns := (found.value? "namespace").getD "cert-rotation"
    service := (found.value? "service").getD "webhook"
    output := found.value? "output" }

end SampleOptions

end CertKeeper.CommandLine
