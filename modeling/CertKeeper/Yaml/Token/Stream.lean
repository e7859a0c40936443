import CertKeeper.Yaml.Scalar.Block
import CertKeeper.Yaml.Scalar.Plain
import CertKeeper.Yaml.Scalar.Quoted
import CertKeeper.Yaml.Token.Property

/-!
# From characters to tokens

`Token.ofText` cuts a text into tokens. Outside brackets, a token that starts further to
the right than the block around it opens a block, and one further to the left closes
blocks. A colon turns what stands before it on the line into a key: where a key may start,
a `KeyStart` is kept until a colon is met or the place is left behind.
-/

namespace CertKeeper.Yaml

/-- A place where a key may have started, with the number of the tokens before it. The key
is required if it starts a line of a block mapping. -/
structure KeyStart where
  required : Bool
  position : Nat
  line : Nat
  column : Nat

/-- The tokens of a text up to a place, the last one first. There is one place for a key
for each level of brackets and one outside of them. -/
structure Stream where
  cursor : Cursor
  tokens : List Token := []
  count : Nat := 0
  indent : Int := -1
  outer : List Int := []
  keyAllowed : Bool := true
  key : Option KeyStart := none
  outerKeys : List (Option KeyStart) := []

namespace Stream

/-- The place is inside brackets. -/
def inFlow (s : Stream) : Bool := !s.outerKeys.isEmpty

/-- Add a token. -/
def push (s : Stream) (t : Token) : Stream :=
  { s with tokens := t :: s.tokens, count := s.count + 1 }

/-- Add a token before those after the first `position` ones. -/
def insert (s : Stream) (position : Nat) (t : Token) : Stream :=
  let later := s.count - position
  { s with tokens := s.tokens.take later ++ t :: s.tokens.drop later, count := s.count + 1 }

/-- Move to a place. -/
def moveTo (s : Stream) (c : Cursor) : Stream := { s with cursor := c }

/-- Pass some characters. -/
def skip (s : Stream) (n : Nat) : Stream := s.moveTo (s.cursor.advance n)

/-- Allow that a key starts here, or do not. -/
def allowKey (s : Stream) (allowed : Bool) : Stream := { s with keyAllowed := allowed }

/-- Close the blocks that are indented further than a column. -/
def closeBlocks (s : Stream) (column : Int) : Stream :=
  let deeper := (s.indent :: s.outer).takeWhile (fun indent => column < indent)
  let left := (s.indent :: s.outer).drop deeper.length
  { s with
    tokens := deeper.map (fun _ => Token.blockEnd) ++ s.tokens
    count := s.count + deeper.length
    indent := left.headD (-1)
    outer := left.tail }

/-- Close blocks where the place is not inside brackets. -/
def unroll (s : Stream) (column : Int) : Stream := if s.inFlow then s else s.closeBlocks column

/-- Open a block at a column, if it is further to the right than the block around it. -/
def roll (s : Stream) (column : Nat) (position : Nat) (t : Token) : Stream :=
  if !s.inFlow && s.indent < column then
    { s.insert position t with indent := column, outer := s.indent :: s.outer }
  else s

/-- Forget the place where a key may have started. -/
def dropKey (s : Stream) : Except Fault Stream :=
  if s.key.any KeyStart.required then .error .key else .ok { s with key := none }

/-- Keep the place as one where a key may start, if one may start here. -/
def markKey (s : Stream) : Except Fault Stream :=
  if s.keyAllowed then do
    let s ← s.dropKey
    let required := !s.inFlow && s.indent = s.cursor.column
    return { s with key := some ⟨required, s.count, s.cursor.line, s.cursor.column⟩ }
  else .ok s

/-- The largest number of characters of a key. -/
def keyBound : Nat := 1024

/-- The place of a key that is still good at a later place: a key is short and on one
line. -/
def KeyStart.refresh (c : Cursor) : Option KeyStart → Except Fault (Option KeyStart)
  | none => .ok none
  | some k =>
    if k.line < c.line || k.column + keyBound < c.column then
      if k.required then .error .key else .ok none
    else .ok (some k)

/-- Forget the places of keys that are no longer good. -/
def refreshKeys (s : Stream) : Except Fault Stream := do
  let key ← KeyStart.refresh s.cursor s.key
  let outerKeys ← s.outerKeys.mapM (KeyStart.refresh s.cursor)
  return { s with key := key, outerKeys := outerKeys }

/-- Pass blanks, comments and line breaks. Where a key may start, tabs are no blanks. -/
def skipGap : Nat → Stream → Stream
  | 0, s => s
  | n + 1, s =>
    let tabs := s.inFlow || !s.keyAllowed
    let c := (s.cursor.skipWhile (fun ch => ch = ' ' || (tabs && ch = '\t'))).skipComment
    let s := s.moveTo c
    if atBreak c.rest then skipGap n ((s.skip 1).allowKey (s.keyAllowed || !s.inFlow)) else s

/-- Leave all blocks, as a document starts or ends. -/
def leaveBlocks (s : Stream) : Except Fault Stream := do
  let s ← (s.unroll (-1)).dropKey
  return s.allowKey false

/-- Read a line of three marks. -/
def boundary (s : Stream) (t : Token) : Except Fault Stream := do
  let s ← s.leaveBlocks
  return (s.skip 3).push t

/-- Read a directive. -/
def directiveLine (s : Stream) : Except Fault Stream := do
  let s ← s.leaveBlocks
  let (t, c) ← directive (s.cursor.advance 1)
  return (s.moveTo c).push t

/-- Read an opening bracket. -/
def openFlow (s : Stream) (t : Token) : Except Fault Stream := do
  let s ← s.markKey
  return ({ s with outerKeys := s.key :: s.outerKeys, key := none }.allowKey true |>.skip 1).push t

/-- Read a closing bracket. -/
def closeFlow (s : Stream) (t : Token) : Except Fault Stream := do
  let s ← s.dropKey
  let s := match s.outerKeys with
    | [] => s
    | key :: outerKeys => { s with key := key, outerKeys := outerKeys }
  return ((s.allowKey false).skip 1).push t

/-- Read a comma inside brackets. -/
def flowComma (s : Stream) : Except Fault Stream := do
  let s ← s.dropKey
  return ((s.allowKey true).skip 1).push .flowEntry

/-- Open a block for an indicator, which has to stand where a key may start. -/
def openBlock (s : Stream) (t : Token) : Except Fault Stream :=
  if s.inFlow then .ok s
  else if s.keyAllowed then .ok (s.roll s.cursor.column s.count t)
  else .error .indicator

/-- Read the dash of an entry. -/
def dash (s : Stream) : Except Fault Stream := do
  let s ← s.openBlock .blockSequence
  let s ← s.dropKey
  return ((s.allowKey true).skip 1).push .blockEntry

/-- Read the question mark of a key. -/
def questionMark (s : Stream) : Except Fault Stream := do
  let s ← s.openBlock .blockMapping
  let s ← s.dropKey
  return ((s.allowKey !s.inFlow).skip 1).push .key

/-- Read the colon of a value. -/
def colon (s : Stream) : Except Fault Stream := do
  match s.key with
  | some k =>
    let s := (s.insert k.position .key).roll k.column k.position .blockMapping
    return (({ s with key := none }.allowKey false).skip 1).push .value
  | none =>
    let s ← s.openBlock .blockMapping
    return ((s.allowKey !s.inFlow).skip 1).push .value

/-- Read an anchor or an alias. -/
def name (s : Stream) (t : String → Token) : Except Fault Stream := do
  let s ← s.markKey
  let (name, c) ← anchorName (s.cursor.advance 1)
  return ((s.allowKey false).moveTo c).push (t name)

/-- Read a tag. -/
def tagged (s : Stream) : Except Fault Stream := do
  let s ← s.markKey
  let (t, c) ← tagToken s.inFlow s.cursor
  return ((s.allowKey false).moveTo c).push t

/-- Read a block scalar. -/
def block (s : Stream) (folded : Bool) : Except Fault Stream := do
  let s ← s.dropKey
  let (text, c) ← blockScalar folded s.indent (s.cursor.advance 1)
  return ((s.allowKey true).moveTo c).push (.scalar false (String.ofList text))

/-- Read a quoted scalar. -/
def quoted (s : Stream) (quote : Char) : Except Fault Stream := do
  let s ← s.markKey
  let (text, c) ← quotedScalar quote (s.cursor.advance 1)
  return ((s.allowKey false).moveTo c).push (.scalar false (String.ofList text))

/-- Read a plain scalar. A key may start after it if it has been ended by a new line. -/
def plain (s : Stream) : Except Fault Stream := do
  let s ← s.markKey
  let (scalar, c) ← plainScalar s.inFlow (s.indent + 1).toNat s.cursor
  return ((s.allowKey scalar.newLine).moveTo c).push (.scalar true (String.ofList scalar.text))

/-- A plain scalar may start with a character, given what follows it. -/
def startsPlain (flow : Bool) (c : Char) (rest : List Char) : Bool :=
  if c = '-' then !rest.head?.any isSpaceOrTab
  else if c = '?' || c = ':' then !flow && !atSeparator rest
  else !isSeparator c && !",[]\x7b\x7d#&*!|>'\"%@\x60".contains c

/-- Read the token that starts with a character. -/
def readToken (s : Stream) (ch : Char) (rest : List Char) : Except Fault Stream :=
  if s.cursor.column = 0 && ch = '%' then s.directiveLine
  else if s.cursor.atBoundary '-' then s.boundary .documentStart
  else if s.cursor.atBoundary '.' then s.boundary .documentEnd
  else
    match ch with
    | '[' => s.openFlow .flowSequence
    | '\x7b' => s.openFlow .flowMapping
    | ']' => s.closeFlow .flowSequenceEnd
    | '\x7d' => s.closeFlow .flowMappingEnd
    | ',' => s.flowComma
    | '*' => s.name .aliasOf
    | '&' => s.name .anchor
    | '!' => s.tagged
    | '\'' => s.quoted ch
    | '"' => s.quoted ch
    | _ =>
      if ch = '-' && atSeparator rest then s.dash
      else if ch = '?' && (s.inFlow || atSeparator rest) then s.questionMark
      else if ch = ':' && (s.inFlow || atSeparator rest) then s.colon
      else if ch = '|' && !s.inFlow then s.block false
      else if ch = '>' && !s.inFlow then s.block true
      else if startsPlain s.inFlow ch rest then s.plain
      else .error .token

/-- Read all tokens. There are at most as many as characters. -/
def readAll : Nat → Stream → Except Fault (List Token)
  | 0, _ => .error .token
  | n + 1, s => do
    let s ← (skipGap (s.cursor.rest.length + 1) s).refreshKeys
    let s := s.unroll s.cursor.column
    match s.cursor.rest with
    | [] =>
      let s ← s.leaveBlocks
      return s.tokens.reverse
    | ch :: rest => readAll n (← s.readToken ch rest)

end Stream

/-- The tokens of a text. A mark of its byte order may start it. -/
def Token.ofText (text : String) : Except Fault (List Token) :=
  let chars := text.toList
  if chars.all isAllowed then
    let rest := unifyBreaks chars
    let start : Cursor := if rest.head? = some '\ufeff' then ⟨rest.tail, 0, 1⟩ else ⟨rest, 0, 0⟩
    Stream.readAll (rest.length + 2) { cursor := start }
  else .error .character

end CertKeeper.Yaml
