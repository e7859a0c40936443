/-!
# Places in a text

The characters of YAML texts and the places between them. A `Cursor` is a place with the
characters after it; the end of a line starts a new line wherever the cursor passes it.
A text is read with one character for each line break (`unifyBreaks`).
-/

namespace CertKeeper.Yaml

/-- The character may stand in a text. -/
def isAllowed (c : Char) : Bool :=
  let n := c.toNat
  n = 0x09 || n = 0x0A || n = 0x0D || (0x20 ≤ n && n ≤ 0x7E) || n = 0x85
    || (0xA0 ≤ n && n ≤ 0xD7FF) || (0xE000 ≤ n && n ≤ 0xFFFD) || 0x10000 ≤ n

/-- The character ends a line. -/
def isBreak (c : Char) : Bool := c = '\n' || c = '\u2028' || c = '\u2029'

/-- The character is a space or a tab. -/
def isSpaceOrTab (c : Char) : Bool := c = ' ' || c = '\t'

/-- The character stands between words. -/
def isSeparator (c : Char) : Bool := isSpaceOrTab c || isBreak c

/-- The character may stand in a name. -/
def isNameChar (c : Char) : Bool := c.isAlphanum || c = '_' || c = '-'

/-- The text ends or a separator follows. -/
def atSeparator : List Char → Bool
  | [] => true
  | c :: _ => isSeparator c

/-- A line break follows. -/
def atBreak : List Char → Bool
  | [] => false
  | c :: _ => isBreak c

/-- The text ends or a line break follows. -/
def atLineEnd : List Char → Bool
  | [] => true
  | c :: _ => isBreak c

/-- Write the line breaks of other systems as line feeds. -/
def unifyBreaks : List Char → List Char
  | '\r' :: '\n' :: rest => '\n' :: unifyBreaks rest
  | '\r' :: rest => '\n' :: unifyBreaks rest
  | '\u0085' :: rest => '\n' :: unifyBreaks rest
  | c :: rest => c :: unifyBreaks rest
  | [] => []

/-- A place in a text. -/
structure Cursor where
  rest : List Char
  line : Nat := 0
  column : Nat := 0

namespace Cursor

/-- The place after some more characters. -/
def advance : Nat → Cursor → Cursor
  | 0, c => c
  | n + 1, c =>
    match c.rest with
    | [] => c
    | ch :: rest =>
      if isBreak ch then advance n ⟨rest, c.line + 1, 0⟩
      else advance n ⟨rest, c.line, c.column + 1⟩

/-- The place after the characters with a property. -/
def skipWhile (p : Char → Bool) (c : Cursor) : Cursor := c.advance (c.rest.takeWhile p).length

/-- The characters with a property, and the place after them. -/
def takeWhile (p : Char → Bool) (c : Cursor) : List Char × Cursor :=
  (c.rest.takeWhile p, c.skipWhile p)

/-- A line of three marks that bounds a document starts here. -/
def atBoundary (mark : Char) (c : Cursor) : Bool :=
  c.column = 0 && [mark, mark, mark].isPrefixOf c.rest && atSeparator (c.rest.drop 3)

/-- A bound of a document starts here. -/
def atDocumentBoundary (c : Cursor) : Bool := c.atBoundary '-' || c.atBoundary '.'

/-- The place after a comment, if there is one. -/
def skipComment (c : Cursor) : Cursor :=
  if c.rest.head? = some '#' then c.skipWhile (fun ch => !isBreak ch) else c

/-- The place after the rest of a line, on which there may only be a comment. -/
def skipLine? (c : Cursor) : Option Cursor :=
  let c := (c.skipWhile isSpaceOrTab).skipComment
  if atLineEnd c.rest then some (c.advance 1) else none

end Cursor

end CertKeeper.Yaml
