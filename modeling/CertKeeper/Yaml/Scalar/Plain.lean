import CertKeeper.Yaml.Fault
import CertKeeper.Yaml.Scalar.Folding

/-!
# Plain scalars

A plain scalar is a text without quotes. It ends before a colon and a separator, before a
comment, where a line is not indented enough and, inside brackets, before a bracket or a
comma.
-/

namespace CertKeeper.Yaml

/-- The character ends a plain scalar inside brackets. -/
def isFlowIndicator (c : Char) : Bool :=
  c = ',' || c = '[' || c = ']' || c = '\x7b' || c = '\x7d'

/-- The first word of a plain scalar. -/
def plainWord (flow : Bool) : List Char → Except Fault (List Char)
  | [] => .ok []
  | c :: rest =>
    if isSeparator c || (flow && isFlowIndicator c) then
      .ok []
    else if c = ':' && flow && rest.head?.any (fun d => isFlowIndicator d || d = '?') then
      .error .token
    else if c = ':' && atSeparator rest then
      .ok []
    else
      (plainWord flow rest).map (c :: ·)

/-- A tab stands before the column `indent` on a line after the first break. -/
def tabBefore (indent : Nat) : Option Nat → List Char → Bool
  | _, [] => false
  | column, c :: rest =>
    if isBreak c then tabBefore indent (some 0) rest
    else match column with
      | none => tabBefore indent none rest
      | some column => (c = '\t' && column < indent) || tabBefore indent (some (column + 1)) rest

/-- What is known of a plain scalar: its text, and whether its end is on a new line. -/
structure PlainScalar where
  text : List Char
  newLine : Bool

/-- Continue a plain scalar after `text` and `gap`. There are at most as many words as
characters. -/
def plainFrom (flow : Bool) (indent : Nat) :
    Nat → List Char → List Char → Cursor → Except Fault (PlainScalar × Cursor)
  | 0, text, gap, c => .ok (⟨text, gap.any isBreak⟩, c)
  | n + 1, text, gap, c =>
    let stopped : PlainScalar × Cursor := (⟨text, gap.any isBreak⟩, c)
    if c.atDocumentBoundary || c.rest.head? = some '#' then .ok stopped
    else
      match plainWord flow c.rest with
      | .error fault => .error fault
      | .ok [] => .ok stopped
      | .ok word =>
        let text := text ++ foldGap gap ++ word
        let c := c.advance word.length
        let (gap, next) := c.takeWhile isSeparator
        if tabBefore indent none gap then .error .tab
        else if !flow && !gap.isEmpty && next.column < indent then
          .ok (⟨text, gap.any isBreak⟩, next)
        else plainFrom flow indent n text gap next

/-- The plain scalar at a place, whose further lines start at the column `indent` or
beyond it. -/
def plainScalar (flow : Bool) (indent : Nat) (c : Cursor) : Except Fault (PlainScalar × Cursor) :=
  plainFrom flow indent (c.rest.length + 1) [] [] c

end CertKeeper.Yaml
