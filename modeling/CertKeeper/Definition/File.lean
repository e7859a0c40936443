import CertKeeper.Definition.Record
import CertKeeper.Yaml.Read

/-!
# Files of definitions

A file of definitions is a YAML list of records. `Definition.ofFile` reads one and
validates what it holds.
-/

namespace CertKeeper

/-- The text of a file, if there is one. -/
def fileText (content : Option ByteArray) : Except Error String :=
  match content with
  | none => .error (.io "no such file")
  | some octets =>
    match String.fromUTF8? octets with
    | none => .error (.io "the file is not valid UTF-8")
    | some text => .ok text

namespace Definition

/-- The depth of the records of a list of definitions: the list, its definitions, their
references and policies, and the texts of these. -/
def depth : Nat := 4

/-- The definitions of a text. -/
def ofText (text : String) : Except Error (List Definition) := do
  let document ← (Yaml.read depth text).mapError (fun fault => .yaml fault.message)
  match listOfDocument? document with
  | none => .error (.yaml Yaml.Fault.shape.message)
  | some definitions =>
    (validate definitions).mapError .invalidDefinition
    return definitions

/-- The definitions of a file. -/
def ofFile (content : Option ByteArray) : Except Error (List Definition) := do
  ofText (← fileText content)

end Definition

end CertKeeper
