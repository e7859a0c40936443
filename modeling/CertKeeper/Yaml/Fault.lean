/-!
# What makes a text no YAML

The faults of a text, each with a short account of itself.
-/

namespace CertKeeper.Yaml

/-- What makes a text no document. -/
inductive Fault where
  | character
  | directive
  | tag
  | noName
  | escape
  | quote
  | tab
  | key
  | indicator
  | token
  | arrangement
  | tagHandle
  | unknownAlias (name : String)
  | shape
  deriving DecidableEq

/-- The text of a fault. -/
def Fault.message : Fault → String
  | character => "control characters are not allowed"
  | directive => "a directive is malformed"
  | tag => "a tag is malformed"
  | noName => "an anchor or an alias has no name"
  | escape => "a quoted text has an unknown escape"
  | quote => "a quoted text does not end"
  | tab => "a tab stands where a line is indented"
  | key => "a key is not followed by a colon"
  | indicator => "an entry, a key or a value cannot start here"
  | token => "a character cannot start any token"
  | arrangement => "the text is not one document"
  | tagHandle => "a tag has an undefined handle"
  | unknownAlias name => "unknown anchor " ++ name
  | shape => "the document is not a list of definitions"

end CertKeeper.Yaml
