import CertKeeper.Document
import CertKeeper.Yaml.Scalar.Style

/-!
# Texts of documents

`Yaml.write` writes a document as a text of blocks. The parts of a collection are indented
by two columns; a list as the value of a key stands below the key without indentation.
-/

namespace CertKeeper.Yaml

/-- A line, unless the text ends one already. -/
def endLine (cs : List Char) : List Char :=
  if cs.getLast?.any isBreak then cs else cs ++ ['\n']

/-- The text of a scalar, if the document is one. A number has no text of its own. -/
def scalarText? (indent : Nat) : Document → Option (List Char)
  | .null | .number => some "null".toList
  | .plain text | .marked text => some text.toList
  | .text text => some (Scalar.write indent text)
  | .list [] => some "[]".toList
  | .map [] => some "\x7b\x7d".toList
  | .list _ | .map _ => none

/-- The text of a key. -/
def keyText : Document → List Char
  | .text text => Scalar.writeKey text
  | key => (scalarText? 0 key).getD "null".toList

mutual

/-- The lines of a document, the first of which has its indentation already. -/
def writeBlock (indent : Nat) : Document → List Char
  | .list (item :: items) => writeItems indent (item :: items)
  | .map (field :: fields) => writeFields indent (field :: fields)
  | d => endLine ((scalarText? indent d).getD [])

/-- The entries of a list. -/
def writeItems (indent : Nat) : List Document → List Char
  | [] => []
  | item :: items =>
    let more := writeItems indent items
    "- ".toList ++ writeBlock (indent + 2) item
      ++ (if items.isEmpty then [] else Scalar.spaces indent ++ more)

/-- The fields of a mapping. -/
def writeFields (indent : Nat) : List (Document × Document) → List Char
  | [] => []
  | (key, value) :: fields =>
    let body := match value with
      | .list (item :: items) => '\n' :: Scalar.spaces indent ++ writeItems indent (item :: items)
      | .map (field :: more) =>
        '\n' :: Scalar.spaces (indent + 2) ++ writeFields (indent + 2) (field :: more)
      | d => ' ' :: endLine ((scalarText? (indent + 2) d).getD [])
    let more := writeFields indent fields
    keyText key ++ ':' :: body
      ++ (if fields.isEmpty then [] else Scalar.spaces indent ++ more)

end

/-- The text of a document. -/
def write (d : Document) : String := String.ofList (writeBlock 0 d)

end CertKeeper.Yaml
