import CertKeeper.Encoding.Der

/-!
# Distinguished names

A `Name` is a list of entries, each of which is a list of attributes with a type, the tag
number of their value and its octets. `Name.read?` reads a name and `Name.write` writes
it. Reading ends without an error where an entry is malformed. `Name.commonName` is the
first common name, if it is a text.
-/

namespace CertKeeper

/-- An attribute of a name. -/
structure Attribute where
  oid : Octets
  tag : Nat
  value : Octets
  deriving DecidableEq

/-- The attributes of each entry of a name. -/
abbrev Name := List (List Attribute)

/-- The type of common names. -/
def commonNameOid : Octets := [0x55, 0x04, 0x03]

/-- The tag number of texts in UTF-8. -/
def utf8StringTag : Nat := 12

/-- The tag number of texts of a few common characters. -/
def printableStringTag : Nat := 19

/-- The tag number of texts of ASCII characters. -/
def ia5StringTag : Nat := 22

namespace Attribute

/-- The attribute at the start of octets. -/
def read? (bytes : Octets) : Option (Attribute × Octets) := do
  let (content, rest) ← Der.tagged? Der.sequenceTag bytes
  let (oid, content) ← Der.primitive? Der.oidTag content
  let (value, _) ← Der.element? content
  return (⟨oid, value.tag, value.content⟩, rest)

/-- The octets of an attribute. -/
def write (a : Attribute) : Octets :=
  Der.sequence [Der.oid a.oid, Der.write (UInt8.ofNat a.tag) a.value]

/-- The text of an attribute. -/
def text? (a : Attribute) : Option String :=
  if a.tag = utf8StringTag ∨ a.tag = printableStringTag ∨ a.tag = ia5StringTag then
    Octets.text? a.value
  else
    none

/-- A common name. -/
def commonName (text : String) : Attribute := ⟨commonNameOid, utf8StringTag, Octets.ofText text⟩

end Attribute

namespace Name

/-- The entry at the start of octets, which has an attribute. -/
def entry? (bytes : Octets) : Option (List Attribute × Octets) := do
  let (content, rest) ← Der.tagged? Der.setTag bytes
  let (attributes, _) := Der.many Attribute.read? content
  if attributes.isEmpty then none else some (attributes, rest)

/-- The name at the start of octets. -/
def read? (bytes : Octets) : Option (Name × Octets) := do
  let (content, rest) ← Der.tagged? Der.sequenceTag bytes
  return ((Der.many entry? content).1, rest)

/-- The octets of a name. -/
def write (n : Name) : Octets :=
  Der.sequence (n.map (fun attributes => Der.set (attributes.map Attribute.write)))

/-- The first common name. It is empty if there is none or it is no text. -/
def commonName (n : Name) : String :=
  ((n.flatten.find? (fun a => a.oid = commonNameOid)).bind Attribute.text?).getD ""

/-- The name of a single common name. -/
def ofCommonName (text : String) : Name := [[Attribute.commonName text]]

end Name

end CertKeeper
