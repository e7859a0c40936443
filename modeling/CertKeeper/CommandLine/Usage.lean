/-!
# Faults of a command line

Why a command line is not carried out: it asks for help or for the version, or something
is wrong with one of its arguments.
-/

namespace CertKeeper.CommandLine

/-- Why a command line is not carried out. -/
inductive UsageFault where
  | help
  | version
  | unknownArgument (argument : String)
  | missingOption (name : String)
  | invalidValue (name : String)
  | rejectedValue (name : String) (cause : String)
  | repeatedOption (name : String)
  | unexpectedValue (name : String)
  deriving DecidableEq

/-- The text of a fault. -/
def UsageFault.message : UsageFault → String
  | help => "help"
  | version => "version"
  | unknownArgument argument => "unexpected argument '" ++ argument ++ "' found"
  | missingOption name => "the argument '--" ++ name ++ "' was not provided"
  | invalidValue name => "invalid value for '--" ++ name ++ "'"
  | rejectedValue name cause => "invalid value for '--" ++ name ++ "': " ++ cause
  | repeatedOption name => "the argument '--" ++ name ++ "' cannot be used multiple times"
  | unexpectedValue name => "unexpected value for '--" ++ name ++ "' found"

end CertKeeper.CommandLine
