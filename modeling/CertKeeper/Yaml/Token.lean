/-!
# Tokens

A text is a list of tokens. Some of them stand for characters of the text. The others
follow from the indentation: those that open a block, and `blockEnd`, which closes it.
-/

namespace CertKeeper.Yaml

/-- A tag as it is written: a handle and the text after it. -/
structure WrittenTag where
  handle : String
  suffix : String
  deriving DecidableEq

/-- A part of a text. -/
inductive Token where
  | version (major minor : Nat)
  | tagPrefix (handle start : String)
  | documentStart
  | documentEnd
  | blockSequence
  | blockMapping
  | blockEnd
  | flowSequence
  | flowSequenceEnd
  | flowMapping
  | flowMappingEnd
  | blockEntry
  | flowEntry
  | key
  | value
  | aliasOf (name : String)
  | anchor (name : String)
  | tag (tag : WrittenTag)
  | scalar (isPlain : Bool) (text : String)
  deriving DecidableEq

end CertKeeper.Yaml
