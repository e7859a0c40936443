import CertKeeper.Yaml.Fault
import CertKeeper.Yaml.Cursor

/-!
# Block scalars

A block scalar is a text of whole lines below its header. The header may fix how far the
lines are indented and what becomes of the line breaks at the end. A literal scalar keeps
its line breaks, and a folded one joins lines that do not start with a blank.
-/

namespace CertKeeper.Yaml

/-- What becomes of the line breaks at the end of a block scalar: the last one stays, or
none, or all. -/
inductive Chomping where
  | clip
  | strip
  | keep
  deriving DecidableEq

/-- The sign of a chomping. -/
def chompingSign? : Char → Option Chomping
  | '-' => some .strip
  | '+' => some .keep
  | _ => none

/-- The header of a block scalar: its chomping, and how much deeper than its surroundings
it is indented, or zero if its first line tells. -/
def blockHeader (c : Cursor) : Except Fault (Chomping × Nat × Cursor) :=
  let digit (c : Cursor) : Except Fault (Nat × Cursor) :=
    match c.rest with
    | [] => .ok (0, c)
    | ch :: _ =>
      if ch = '0' then .error .indicator
      else if ch.isDigit then .ok (ch.toNat - 48, c.advance 1)
      else .ok (0, c)
  let sign (c : Cursor) : Option (Chomping × Cursor) :=
    (c.rest.head?.bind chompingSign?).map (fun chomping => (chomping, c.advance 1))
  match sign c with
  | some (chomping, c) => do
    let (increment, c) ← digit c
    return (chomping, increment, c)
  | none => do
    let (increment, c) ← digit c
    match if increment = 0 then none else sign c with
    | some (chomping, c) => return (chomping, increment, c)
    | none => return (.clip, increment, c)

/-- What stands before a line of a block scalar: the line breaks of empty lines, and the
largest column that a line of spaces reaches. -/
structure BlockGap where
  breaks : List Char := []
  widest : Nat := 0

/-- Pass the empty lines and the spaces before a line that is indented by `indent`, or by
an unknown number of spaces if that is zero. -/
def blockGap (indent : Nat) : Nat → BlockGap → Cursor → Except Fault (BlockGap × Cursor)
  | 0, gap, c => .ok (gap, c)
  | n + 1, gap, c =>
    let spaces := (c.rest.takeWhile (· = ' ')).length
    let c := c.advance (if indent = 0 then spaces else min spaces (indent - c.column))
    let gap := { gap with widest := max gap.widest c.column }
    if (indent = 0 || c.column < indent) && c.rest.head? = some '\t' then .error .tab
    else
      match c.rest with
      | [] => .ok (gap, c)
      | ch :: _ =>
        if isBreak ch then blockGap indent n { gap with breaks := gap.breaks ++ [ch] } (c.advance 1)
        else .ok (gap, c)

/-- The text of a block scalar so far: its lines, the break after the last of them, the
breaks of the empty lines after that, and whether the last line starts with a blank. -/
structure BlockText where
  text : List Char := []
  lastBreak : List Char := []
  emptyLines : List Char := []
  blank : Bool := false

/-- Add a line to a block scalar. -/
def BlockText.addLine (folded : Bool) (t : BlockText) (line : List Char) : List Char :=
  let blank := line.head?.any isSpaceOrTab
  let joint :=
    if folded && t.lastBreak = ['\n'] && !t.blank && !blank then
      if t.emptyLines.isEmpty then [' '] else []
    else t.lastBreak
  t.text ++ joint ++ t.emptyLines ++ line

/-- Read the lines of a block scalar that is indented by `indent`. -/
def blockLines (folded : Bool) (indent : Nat) :
    Nat → BlockText → Cursor → Except Fault (BlockText × Cursor)
  | 0, t, c => .ok (t, c)
  | n + 1, t, c =>
    if c.column = indent && !c.rest.isEmpty then do
      let (line, c) := c.takeWhile (fun ch => !isBreak ch)
      let text := t.addLine folded line
      let lastBreak := c.rest.take 1
      let (gap, c) ← blockGap indent (c.rest.length + 1) {} (c.advance 1)
      blockLines folded indent n ⟨text, lastBreak, gap.breaks, line.head?.any isSpaceOrTab⟩ c
    else .ok (t, c)

/-- The block scalar after its indicator, in surroundings that are indented by `outer`, or
not at all if that is negative. -/
def blockScalar (folded : Bool) (outer : Int) (c : Cursor) :
    Except Fault (List Char × Cursor) := do
  let (chomping, increment, c) ← blockHeader c
  match c.skipLine? with
  | none => .error .indicator
  | some c =>
    let given := if increment = 0 then 0 else increment + outer.toNat
    let (gap, c) ← blockGap given (c.rest.length + 1) {} c
    let indent := if given = 0 then max (max gap.widest (outer + 1).toNat) 1 else given
    let (t, c) ← blockLines folded indent (c.rest.length + 1) { emptyLines := gap.breaks } c
    let tail := match chomping with
      | .strip => []
      | .clip => t.lastBreak
      | .keep => t.lastBreak ++ t.emptyLines
    return (t.text ++ tail, c)

end CertKeeper.Yaml
