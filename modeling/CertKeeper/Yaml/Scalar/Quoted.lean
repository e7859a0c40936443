import CertKeeper.Text.Hexadecimal
import CertKeeper.Yaml.Fault
import CertKeeper.Yaml.Scalar.Folding

/-!
# Quoted scalars

A text in single quotes has a quote of its own written twice. A text in double quotes has
escapes: `escape?` reads the characters after a backslash. In both, separators are folded,
and no line may look like a bound of a document.
-/

namespace CertKeeper.Yaml

/-- The character of a code point. -/
def charOfCode? (n : Nat) : Option Char := if n.isValidChar then some (Char.ofNat n) else none

/-- The character that a number of hexadecimal digits stand for. -/
def coded? (width : Nat) (rest : List Char) : Option (Char × Nat) := do
  let digits := rest.take width
  guard (digits.length = width)
  let c ← charOfCode? (← Hexadecimal.value? digits)
  return (c, 1 + width)

/-- The character of an escape, given what follows the backslash, and the length of the
escape without the backslash. -/
def escape? : List Char → Option (Char × Nat)
  | '0' :: _ => some ('\x00', 1)
  | 'a' :: _ => some ('\x07', 1)
  | 'b' :: _ => some ('\x08', 1)
  | 't' :: _ | '\t' :: _ => some ('\t', 1)
  | 'n' :: _ => some ('\n', 1)
  | 'v' :: _ => some ('\x0b', 1)
  | 'f' :: _ => some ('\x0c', 1)
  | 'r' :: _ => some ('\r', 1)
  | 'e' :: _ => some ('\x1b', 1)
  | ' ' :: _ => some (' ', 1)
  | '"' :: _ => some ('"', 1)
  | '/' :: _ => some ('/', 1)
  | '\\' :: _ => some ('\\', 1)
  | 'N' :: _ => some ('\u0085', 1)
  | '_' :: _ => some ('\u00a0', 1)
  | 'L' :: _ => some ('\u2028', 1)
  | 'P' :: _ => some ('\u2029', 1)
  | 'x' :: rest => coded? 2 rest
  | 'u' :: rest => coded? 4 rest
  | 'U' :: rest => coded? 8 rest
  | _ => none

/-- Pass the separators of a quoted text. -/
def quotedGap (c : Cursor) : Except Fault (List Char × Cursor) :=
  let (gap, next) := c.takeWhile isSeparator
  if next.atDocumentBoundary then .error .quote else .ok (gap, next)

/-- The rest of a text in single quotes, after `text`. -/
def singleFrom : Nat → List Char → Cursor → Except Fault (List Char × Cursor)
  | 0, _, _ => .error .quote
  | n + 1, text, c =>
    match c.rest with
    | [] => .error .quote
    | '\'' :: '\'' :: _ => singleFrom n (text ++ ['\'']) (c.advance 2)
    | '\'' :: _ => .ok (text, c.advance 1)
    | ch :: _ =>
      if isSeparator ch then do
        let (gap, next) ← quotedGap c
        singleFrom n (text ++ foldGap gap) next
      else
        singleFrom n (text ++ [ch]) (c.advance 1)

/-- The rest of a text in double quotes, after `text`. A backslash at the end of a line
takes the break away, and of the separators after it only the breaks are kept. -/
def doubleFrom : Nat → List Char → Cursor → Except Fault (List Char × Cursor)
  | 0, _, _ => .error .quote
  | n + 1, text, c =>
    match c.rest with
    | [] => .error .quote
    | '"' :: _ => .ok (text, c.advance 1)
    | '\\' :: rest =>
      if atBreak rest then do
        let (gap, next) ← quotedGap (c.advance 2)
        doubleFrom n (text ++ gap.filter isBreak) next
      else
        match escape? rest with
        | none => .error .escape
        | some (ch, length) => doubleFrom n (text ++ [ch]) (c.advance (1 + length))
    | ch :: _ =>
      if isSeparator ch then do
        let (gap, next) ← quotedGap c
        doubleFrom n (text ++ foldGap gap) next
      else
        doubleFrom n (text ++ [ch]) (c.advance 1)

/-- The quoted text after its first quote. -/
def quotedScalar (quote : Char) (c : Cursor) : Except Fault (List Char × Cursor) :=
  if quote = '"' then doubleFrom (c.rest.length + 1) [] c else singleFrom (c.rest.length + 1) [] c

end CertKeeper.Yaml
