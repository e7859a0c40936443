import CertKeeper.Yaml.Cursor
import CertKeeper.Yaml.Scalar.Number

/-!
# Styles of scalars

A text is written plain if that is safe, else in single quotes, and in double quotes if it
has characters that must be escaped or blanks beside line breaks. A text with a line feed
is written as a literal block where it can be. `Scalar.write` writes a text in its style.
-/

namespace CertKeeper.Yaml

/-- The character can be written as it is. -/
def isPrintable (c : Char) : Bool :=
  let n := c.toNat
  n = 0x0A || (0x20 ≤ n && n ≤ 0x7E) || (0xA0 ≤ n && n ≤ 0xD7FF)
    || (0xE000 ≤ n && n ≤ 0xFFFD && n ≠ 0xFEFF) || 0x10000 ≤ n

namespace Scalar

/-- The text starts with a character that has a meaning there. -/
def startsWithIndicator (cs : List Char) : Bool :=
  match cs with
  | [] => false
  | c :: rest =>
    "#,[]\x7b\x7d&*!|>'\"%@\x60".contains c || ("?:-".contains c && atSeparator rest)
      || "---".toList.isPrefixOf cs || "...".toList.isPrefixOf cs

/-- Behind its first character, given as `c`, the text has a colon before a separator or
the sign of a comment after one. -/
def hasIndicator : Char → List Char → Bool
  | _, [] => false
  | c, d :: rest =>
    (d = ':' && atSeparator rest) || (d = '#' && isSeparator c) || hasIndicator d rest

/-- Two characters with properties stand side by side. -/
def hasPair (p q : Char → Bool) : List Char → Bool
  | c :: d :: rest => (p c && q d) || hasPair p q (d :: rest)
  | _ => false

/-- The character is a space. -/
def isSpace (c : Char) : Bool := c = ' '

/-- The text can be written without quotes. -/
def allowsPlain (cs : List Char) : Bool :=
  cs.all isPrintable && !cs.any isBreak && !cs.head?.any isSpace && !cs.getLast?.any isSpace
    && !startsWithIndicator cs && !hasIndicator (cs.headD ' ') cs.tail

/-- The text can be written in single quotes. -/
def allowsSingle (cs : List Char) : Bool :=
  cs.all isPrintable && !hasPair isSpace isBreak cs && !hasPair isBreak isSpace cs

/-- The text can be written as a literal block. -/
def allowsLiteral (cs : List Char) : Bool :=
  cs.all isPrintable && !hasPair isSpace isBreak cs && !cs.getLast?.any isSpace

/-- A way to write a scalar. -/
inductive Style where
  | plain
  | single
  | double
  | literal
  deriving DecidableEq

/-- The style of a text. -/
def style (text : String) : Style :=
  let cs := text.toList
  if cs.contains '\n' then
    if allowsLiteral cs then .literal else .double
  else if !looksUntyped text && allowsPlain cs then .plain
  else if allowsSingle cs then .single
  else .double

/-- The escape of a character inside double quotes. -/
def escape (c : Char) : List Char :=
  match c with
  | '\x00' => "\\0".toList
  | '\x07' => "\\a".toList
  | '\x08' => "\\b".toList
  | '\t' => "\\t".toList
  | '\n' => "\\n".toList
  | '\x0b' => "\\v".toList
  | '\x0c' => "\\f".toList
  | '\r' => "\\r".toList
  | '\x1b' => "\\e".toList
  | '"' => "\\\"".toList
  | '\\' => "\\\\".toList
  | '\u0085' => "\\N".toList
  | '\u2028' => "\\L".toList
  | '\u2029' => "\\P".toList
  | c =>
    if c.toNat < 0x100 then "\\x".toList ++ Hexadecimal.padded 2 c.toNat
    else if c.toNat < 0x10000 then "\\u".toList ++ Hexadecimal.padded 4 c.toNat
    else "\\U".toList ++ Hexadecimal.padded 8 c.toNat

/-- The character needs an escape inside double quotes. -/
def needsEscape (c : Char) : Bool := !isPrintable c || isBreak c || c = '"' || c = '\\'

/-- A text in double quotes. -/
def double (cs : List Char) : List Char :=
  '"' :: cs.flatMap (fun c => if needsEscape c then escape c else [c]) ++ ['"']

/-- Some spaces. -/
def spaces (n : Nat) : List Char := List.replicate n ' '

/-- The characters of a text, where `write` gives those of a line, with spaces at the
start of each line that is not empty. The first character is at such a start if `fresh`. -/
def indentLines (indent : Nat) (write : Char → List Char) : Bool → List Char → List Char
  | _, [] => []
  | fresh, c :: rest =>
    if isBreak c then c :: indentLines indent write true rest
    else (if fresh then spaces indent else []) ++ write c ++ indentLines indent write false rest

/-- A text in single quotes. -/
def single (indent : Nat) (cs : List Char) : List Char :=
  let body := indentLines indent (fun c => if c = '\'' then ['\'', '\''] else [c]) false cs
  let close := if cs.getLast?.any isBreak then spaces indent else []
  '\'' :: body ++ close ++ ['\'']

/-- The header of a literal block: the depth of its indentation where the first line does
not tell it, and what becomes of the line breaks at its end. -/
def literalHeader (cs : List Char) : List Char :=
  let depth := if cs.head?.any (fun c => isSpace c || isBreak c) then ['2'] else []
  let chomping := match cs.reverse with
    | [] => ['-']
    | last :: before =>
      if !isBreak last then ['-']
      else if before.isEmpty || before.head?.any isBreak then ['+']
      else []
  '|' :: depth ++ chomping

/-- A text as a literal block. -/
def literal (indent : Nat) (cs : List Char) : List Char :=
  literalHeader cs ++ '\n' :: indentLines indent (fun c => [c]) true cs

/-- A text in its style, whose further lines are indented. -/
def write (indent : Nat) (text : String) : List Char :=
  match style text with
  | .plain => text.toList
  | .single => single indent text.toList
  | .double => double text.toList
  | .literal => literal indent text.toList

/-- A text as the key of a mapping, on one line. -/
def writeKey (text : String) : List Char :=
  match style text with
  | .plain => text.toList
  | .single => if text.toList.any isBreak then double text.toList else single 0 text.toList
  | .double | .literal => double text.toList

end Scalar

end CertKeeper.Yaml
