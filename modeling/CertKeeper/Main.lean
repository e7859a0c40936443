import CertKeeper.CommandLine.Generator
import CertKeeper.Manager.Settings

/-!
# The program

`generate` and its options write sample definitions. Any other command line is one of the
keeper: its definitions are read and checked, and its settings are shown.
-/

namespace CertKeeper.Main

open CommandLine

/-- Where the namespace of the account of a pod is kept. -/
def accountPath : String := "/var/run/secrets/kubernetes.io/serviceaccount/namespace"

/-- The content of a file, if it can be read. -/
def readFile? (path : String) : IO (Option ByteArray) := do
  try
    return some (← IO.FS.readBinFile path)
  catch _ =>
    return none

/-- Print why a command line comes to nothing. -/
def refuse (refusal : Refusal) : IO UInt32 := do
  IO.eprintln refusal.message
  return refusal.exitCode

/-- Write a text to where it goes. -/
def deliver (text : GeneratedText) : IO UInt32 := do
  match text.output with
  | some path => IO.FS.writeFile path text.content
  | none => IO.print text.content
  return 0

/-- Write sample definitions. -/
def generate (arguments : List String) : IO UInt32 :=
  match generated arguments with
  | .error refusal => refuse refusal
  | .ok text => deliver text

/-- The values of the variables that options may be given by. -/
def environment : IO (List (String × String)) := do
  let names := KeeperOptions.table.filterMap OptionSpec.envVar
  names.filterMapM (fun name => do return (← IO.getEnv name).map (fun value => (name, value)))

/-- Show the settings of a keeper. -/
def settings (arguments : List String) : IO UInt32 := do
  let env ← environment
  match KeeperOptions.read (fun name => List.lookup name env) arguments with
  | .error fault => refuse (.usage fault)
  | .ok options =>
    match Settings.resolve options (← readFile? accountPath) (← readFile? options.definitions) with
    | .error e => refuse (.failed e)
    | .ok settings =>
      settings.warnings.forM (fun use => IO.eprintln use.text)
      IO.println ("Watching namespaces " ++ ", ".intercalate settings.namespaces)
      settings.definitions.forM (fun d => IO.println ("Keeping " ++ d.signer.text))
      return 0

end CertKeeper.Main

/-- Run the program on the arguments of its command line. -/
def main (arguments : List String) : IO UInt32 :=
  match arguments with
  | "generate" :: rest => CertKeeper.Main.generate rest
  | arguments => CertKeeper.Main.settings arguments
