import CertKeeper.Text.Decimal
import CertKeeper.Text.Hexadecimal
import CertKeeper.Yaml.Cursor
import CertKeeper.Yaml.Fault
import CertKeeper.Yaml.Token

/-!
# Names, tags and directives

The tokens that start with an ampersand, an asterisk, an exclamation mark or a percent
sign.
-/

namespace CertKeeper.Yaml

/-- The name of an anchor or an alias, after its sign. -/
def anchorName (c : Cursor) : Except Fault (String × Cursor) :=
  let (name, next) := c.takeWhile isNameChar
  let ends := atSeparator next.rest || next.rest.head?.any (fun ch => "?:,]\x7d%@\x60".contains ch)
  if name.isEmpty || !ends then .error .noName else .ok (String.ofList name, next)

/-- The octet that is written as a percent sign and two digits. -/
def escapedOctet? : List Char → Option (UInt8 × List Char)
  | '%' :: a :: b :: rest => do
    return (UInt8.ofNat (16 * (← Hexadecimal.digitValue? a) + (← Hexadecimal.digitValue? b)), rest)
  | _ => none

/-- The number of octets of a character that starts with an octet. -/
def octetCount? (first : UInt8) : Option Nat :=
  if first < 0x80 then some 1
  else if first &&& 0xE0 = 0xC0 then some 2
  else if first &&& 0xF0 = 0xE0 then some 3
  else if first &&& 0xF8 = 0xF0 then some 4
  else none

/-- The octets of a character after its first one. -/
def moreOctets? : Nat → List Char → Option (List UInt8 × List Char)
  | 0, rest => some ([], rest)
  | n + 1, rest => do
    let (octet, rest) ← escapedOctet? rest
    guard (octet &&& 0xC0 = 0x80)
    let (octets, rest) ← moreOctets? n rest
    return (octet :: octets, rest)

/-- The character that is written as escaped octets, and the number of characters of the
escapes. Octets that make no character stand for themselves. -/
def escapedChar? (rest : List Char) : Option (List Char × Nat) := do
  let (first, after) ← escapedOctet? rest
  let count ← octetCount? first
  let (more, _) ← moreOctets? (count - 1) after
  let octets := first :: more
  let text := match String.fromUTF8? ⟨octets.toArray⟩ with
    | some s => s.toList
    | none => octets.map (fun octet => Char.ofNat octet.toNat)
  return (text, 3 * count)

/-- The character may stand in a tag. Brackets and commas may only stand in a whole one. -/
def isTagChar (whole : Bool) (c : Char) : Bool :=
  isNameChar c || ";/?:@&=+$.%!~*'()".contains c || (whole && ",[]".contains c)

/-- The characters of a tag, with its escapes read. -/
def tagText (whole : Bool) : Nat → List Char → Cursor → Except Fault (List Char × Cursor)
  | 0, text, c => .ok (text, c)
  | n + 1, text, c =>
    match c.rest with
    | [] => .ok (text, c)
    | ch :: _ =>
      if !isTagChar whole ch then .ok (text, c)
      else if ch = '%' then
        match escapedChar? c.rest with
        | none => .error .tag
        | some (chars, length) => tagText whole n (text ++ chars) (c.advance length)
      else tagText whole n (text ++ [ch]) (c.advance 1)

/-- The text of a tag, which may only be empty after a `start`. -/
def tagUri (whole : Bool) (start : List Char) (c : Cursor) : Except Fault (String × Cursor) := do
  let (text, next) ← tagText whole (c.rest.length + 1) [] c
  if start.isEmpty && text.isEmpty then throw .tag
  return (String.ofList (start.drop 1 ++ text), next)

/-- A handle: an exclamation mark, a name, and a second mark if there is one. -/
def tagHandle (c : Cursor) : Except Fault (List Char × Cursor) :=
  if c.rest.head? ≠ some '!' then .error .tag
  else
    let (name, next) := (c.advance 1).takeWhile isNameChar
    if next.rest.head? = some '!' then .ok ('!' :: name ++ ['!'], next.advance 1)
    else .ok ('!' :: name, next)

/-- The tag at a place. -/
def writtenTag (c : Cursor) : Except Fault (WrittenTag × Cursor) :=
  if (c.rest.drop 1).head? = some '<' then do
    let (suffix, next) ← tagUri true [] (c.advance 2)
    if next.rest.head? ≠ some '>' then throw .tag
    return (⟨"", suffix⟩, next.advance 1)
  else do
    let (handle, next) ← tagHandle c
    if 1 < handle.length && handle.getLast? = some '!' then
      let (suffix, next) ← tagUri false [] next
      return (⟨String.ofList handle, suffix⟩, next)
    else
      let (suffix, next) ← tagUri false handle next
      return (if suffix.isEmpty then ⟨"", "!"⟩ else ⟨"!", suffix⟩, next)

/-- The tag at a place, which a separator or, inside brackets, a comma ends. -/
def tagToken (flow : Bool) (c : Cursor) : Except Fault (Token × Cursor) := do
  let (tag, next) ← writtenTag c
  if (flow && next.rest.head? = some ',') || atSeparator next.rest then
    return (.tag tag, next)
  else
    throw .tag

/-- A number of at most nine digits. -/
def versionNumber (c : Cursor) : Except Fault (Nat × Cursor) :=
  let (digits, next) := c.takeWhile Char.isDigit
  match Decimal.value? digits with
  | some n => if digits.isEmpty || 9 < digits.length then .error .directive else .ok (n, next)
  | none => .error .directive

/-- The rest of a directive with a version. -/
def versionDirective (c : Cursor) : Except Fault (Token × Cursor) := do
  let (major, next) ← versionNumber (c.skipWhile isSpaceOrTab)
  if next.rest.head? ≠ some '.' then throw .directive
  let (minor, next) ← versionNumber (next.advance 1)
  return (.version major minor, next)

/-- The rest of a directive that gives a handle its meaning. -/
def tagDirective (c : Cursor) : Except Fault (Token × Cursor) := do
  let (handle, next) ← tagHandle (c.skipWhile isSpaceOrTab)
  if handle.getLast? ≠ some '!' then throw .directive
  if !next.rest.head?.any isSpaceOrTab then throw .directive
  let (start, next) ← tagUri true [] (next.skipWhile isSpaceOrTab)
  if !atSeparator next.rest then throw .directive
  return (.tagPrefix (String.ofList handle) start, next)

/-- The directive after a percent sign. -/
def directive (c : Cursor) : Except Fault (Token × Cursor) := do
  let (name, next) := c.takeWhile isNameChar
  if name.isEmpty || !atSeparator next.rest then throw .directive
  let (token, next) ← match String.ofList name with
    | "YAML" => versionDirective next
    | "TAG" => tagDirective next
    | _ => throw .directive
  match next.skipLine? with
  | some next => return (token, next)
  | none => throw .directive

end CertKeeper.Yaml
