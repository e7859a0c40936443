import CertKeeper.CommandLine.SampleOptions
import CertKeeper.Definition.Sample
import CertKeeper.Error

/-!
# What the sample generator writes

`generated` decides from a command line what is written, and where. Or else there is a `Refusal`, the
same as for any other command line of the program, and nothing is written.
-/

namespace CertKeeper.CommandLine

/-- Why a command line comes to nothing: it is not carried out, or what it asks for fails. -/
inductive Refusal where
  | usage (fault : UsageFault)
  | failed (e : Error)
  deriving DecidableEq

namespace Refusal

/-- The text of a refusal. -/
def message : Refusal → String
  | usage fault => fault.message
  | failed e => e.message

/-- The exit code of a refusal. Help and the version are given on demand. -/
def exitCode : Refusal → UInt32
  | usage fault => if fault = .help || fault = .version then 0 else 2
  | failed _ => 1

end Refusal

/-- A text and the file that it is written to. Without a file it is printed. -/
structure GeneratedText where
  output : Option String
  content : String
  deriving DecidableEq

/-- What the generator of sample definitions writes. -/
def generated (arguments : List String) : Except Refusal GeneratedText := do
  let options ← (SampleOptions.read arguments).mapError .usage
  let content ← (Definition.sampleFile options.ns options.service).mapError
    (fun fault => .failed (.invalidDefinition fault))
  return ⟨options.output, content⟩

end CertKeeper.CommandLine
