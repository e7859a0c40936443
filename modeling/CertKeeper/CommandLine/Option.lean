import CertKeeper.CommandLine.Usage

/-!
# Options

A command line is a list of options with values. `Options.read` reads one by a table of the
options that there are. A value follows its option as the next argument or behind an
equals sign, a short option may have it attached, and an option that is not given may have
a value from the environment. Values are checked from left to right: the value of an option
is checked when the next known option, or the end, is met.
-/

namespace CertKeeper.CommandLine

/-- An option with a value. A listing option may be given more than once, and its values
are lists with commas. -/
structure OptionSpec where
  name : String
  short : Option Char := none
  envVar : Option String := none
  listing : Bool := false
  check : String → Except UsageFault Unit := fun _ => .ok ()

/-- The values of the options that were given. -/
abbrev Options := List (String × List String)

/-- An option whose value has not been checked yet, with the value if it is known. -/
abbrev Waiting := Option (OptionSpec × Option String)

/-- The forms of an argument: the mark that ends the options, a long option, short options
behind a dash, and any other word. -/
inductive Argument where
  | escape
  | long (name : String) (value : Option String)
  | short (flags : List Char)
  | word

namespace Argument

/-- The argument of a text. -/
def ofText (text : String) : Argument :=
  match text.toList with
  | ['-', '-'] => .escape
  | '-' :: '-' :: rest =>
    let name := rest.takeWhile (· ≠ '=')
    let value := match rest.drop name.length with
      | [] => none
      | _ :: value => some (String.ofList value)
    .long (String.ofList name) value
  | ['-'] => .word
  | '-' :: flags => .short flags
  | _ => .word

end Argument

namespace Options

/-- The parts of a text between commas. -/
def splitCommas (text : String) : List String := text.splitOn ","

/-- Add a value of an option. -/
def store (found : Options) (spec : OptionSpec) (value : String) : Except UsageFault Options := do
  if !spec.listing && (found.lookup spec.name).isSome then
    throw (.repeatedOption spec.name)
  let values := if spec.listing then splitCommas value else [value]
  values.forM spec.check
  return found ++ [(spec.name, values)]

/-- Check the value that was waiting. -/
def settle (found : Options) : Waiting → Except UsageFault Options
  | none => .ok found
  | some (spec, none) => .error (.invalidValue spec.name)
  | some (spec, some value) => found.store spec value

/-- Take an option whose value is part of the same argument or follows. -/
def take (found : Options) (waiting : Waiting) (spec : OptionSpec) (value : Option String) :
    Except UsageFault (Options × Waiting) := do
  let found ← found.settle waiting
  match value with
  | some value => return (← found.store spec value, none)
  | none => return (found, some (spec, none))

/-- End with a fault once the waiting value has been checked. -/
def endWith (found : Options) (waiting : Waiting) (fault : UsageFault) :
    Except UsageFault (Options × Waiting) := do
  let _ ← found.settle waiting
  throw fault

/-- Read a long option. -/
def readLong (table : List OptionSpec) (found : Options) (waiting : Waiting) (name : String)
    (value : Option String) : Except UsageFault (Options × Waiting) :=
  let flag (fault : UsageFault) :=
    if value.isSome then .error (.unexpectedValue name) else found.endWith waiting fault
  match table.find? (fun spec => spec.name = name) with
  | some spec => found.take waiting spec value
  | none =>
    if name = "help" then flag .help
    else if name = "version" then flag .version
    else .error (.unknownArgument ("--" ++ name))

/-- Read short options behind one dash. -/
def readShort (table : List OptionSpec) (found : Options) (waiting : Waiting) :
    List Char → Except UsageFault (Options × Waiting)
  | [] => .ok (found, waiting)
  | c :: rest =>
    match table.find? (fun spec => spec.short = some c) with
    | some spec =>
      let value := match rest with
        | [] => none
        | '=' :: value => some (String.ofList value)
        | value => some (String.ofList value)
      found.take waiting spec value
    | none =>
      if c = 'h' then found.endWith waiting .help
      else if c = 'V' then found.endWith waiting .version
      else .error (.unknownArgument (String.ofList ['-', c]))

/-- Read the arguments of a command line. -/
def readArguments (table : List OptionSpec) (found : Options) (waiting : Waiting) :
    List String → Except UsageFault Options
  | [] => found.settle waiting
  | argument :: rest =>
    match Argument.ofText argument with
    | .escape =>
      match rest with
      | [] => found.settle waiting
      | further :: _ => .error (.unknownArgument further)
    | .long name value => do
      let (found, waiting) ← found.readLong table waiting name value
      readArguments table found waiting rest
    | .short flags => do
      let (found, waiting) ← found.readShort table waiting flags
      readArguments table found waiting rest
    | .word =>
      match waiting with
      | some (spec, none) => readArguments table found (some (spec, some argument)) rest
      | _ => .error (.unknownArgument argument)

/-- Add the values that the environment has for options that were not given. -/
def readEnvironment (env : String → Option String) (found : Options) (table : List OptionSpec) :
    Except UsageFault Options :=
  table.foldlM (fun found spec =>
    match found.lookup spec.name, spec.envVar.bind env with
    | none, some value => found.store spec value
    | _, _ => .ok found) found

/-- The values of the options of a command line. -/
def read (table : List OptionSpec) (env : String → Option String) (arguments : List String) :
    Except UsageFault Options := do
  let found ← readArguments table [] none arguments
  found.readEnvironment env table

/-- All values of an option. -/
def values (found : Options) (name : String) : List String :=
  (found.filter (fun entry => entry.1 = name)).flatMap Prod.snd

/-- The value of an option. -/
def value? (found : Options) (name : String) : Option String := (found.values name).head?

end Options

end CertKeeper.CommandLine
