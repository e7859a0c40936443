import CertKeeper.Yaml.Fault
import CertKeeper.Yaml.Node
import CertKeeper.Yaml.Token

/-!
# From tokens to nodes

`Graph.ofTokens` reads the tokens of a text as one document, whose collections are blocks
or stand in brackets. A key, a value or an entry that is left out is an empty plain
scalar. An anchor takes the number of the different names of anchors before it.
-/

namespace CertKeeper.Yaml

/-- What is left of the tokens, and what is known of anchors and tags. -/
structure Source where
  tokens : List Token
  handles : List (String × String) := []
  names : List (String × Nat) := []
  owners : List (Nat × Nat) := []
  nodes : List (Nat × Node) := []
  started : Nat := 0

/-- A part of the grammar. -/
abbrev Grammar (α : Type) := StateT Source (Except Fault) α

namespace Grammar

/-- The next token. -/
def peek : Grammar (Option Token) := do return (← get).tokens.head?

/-- Pass a token. -/
def skip : Grammar Unit := modify (fun s => { s with tokens := s.tokens.tail })

/-- Pass a token if it is the given one. -/
def accept (t : Token) : Grammar Bool := do
  if (← peek) = some t then
    skip
    return true
  else return false

/-- The next token is one of the given ones. -/
def follows (ts : List Token) : Grammar Bool := do
  return (← peek).any ts.contains

/-- The tokens do not make a document. -/
def fail {α : Type} : Grammar α := throw .arrangement

/-- A scalar that is left out. -/
def empty : Node := .scalar true none ""

/-- Number the anchor of a node that starts, and answer what tells the node apart. -/
def startAnchor (name : String) : Grammar Nat := do
  let s ← get
  let number := s.names.length
  let names := if (s.names.lookup name).isSome
    then s.names.map (fun entry => if entry.1 = name then (name, number) else entry)
    else s.names ++ [(name, number)]
  set { s with names := names, owners := (number, s.started) :: s.owners, started := s.started + 1 }
  return s.started

/-- Keep the node of an anchor. -/
def keepNode (start : Option Nat) (node : Node) : Grammar Node := do
  match start with
  | some start => modify (fun s => { s with nodes := (start, node) :: s.nodes })
  | none => pure ()
  return node

/-- The tag that a written one stands for. -/
def fullTag (tag : WrittenTag) : Grammar String := do
  if tag.handle.isEmpty then return tag.suffix
  match (← get).handles.lookup tag.handle with
  | some start => return start ++ tag.suffix
  | none => throw .tagHandle

/-- The anchor before a node. -/
def anchor? : Grammar (Option String) := do
  match ← peek with
  | some (.anchor name) =>
    skip
    return some name
  | _ => return none

/-- The tag before a node. -/
def tag? : Grammar (Option WrittenTag) := do
  match ← peek with
  | some (.tag tag) =>
    skip
    return some tag
  | _ => return none

/-- What stands before a node. -/
structure Properties where
  start : Option Nat
  tag : Option String

/-- The anchor and the tag before a node, in either order. -/
def properties : Grammar Properties := do
  let first ← anchor?
  let tag ← tag?
  let anchor ← match first, tag with
    | none, some _ => anchor?
    | _, _ => pure first
  let tag ← tag.mapM fullTag
  let start ← anchor.mapM startAnchor
  return ⟨start, tag⟩

/-- The scalar of a token. A lone exclamation mark is no tag. -/
def scalar (p : Properties) (isPlain : Bool) (text : String) : Node :=
  .scalar isPlain (if p.tag = some "!" then none else p.tag) text

mutual

/-- A node. Blocks may stand outside of brackets only, and a list as the value of a key
needs no deeper indentation. -/
def node (block indentless : Bool) : Nat → Grammar Node
  | 0 => fail
  | n + 1 => do
    match ← peek with
    | some (.aliasOf name) =>
      skip
      match (← get).names.lookup name with
      | some number => return .aliasOf number
      | none => throw (.unknownAlias name)
    | _ =>
      let p ← properties
      match ← peek with
      | some .blockEntry =>
        if indentless then keepNode p.start (.list (← indentlessItems n))
        else emptyNode p
      | some (.scalar isPlain text) =>
        skip
        keepNode p.start (scalar p isPlain text)
      | some .flowSequence =>
        skip
        keepNode p.start (.list (← flowItems true n))
      | some .flowMapping =>
        skip
        keepNode p.start (.map (← flowFields true n))
      | some .blockSequence =>
        if block then
          skip
          keepNode p.start (.list (← blockItems n))
        else emptyNode p
      | some .blockMapping =>
        if block then
          skip
          keepNode p.start (.map (← blockFields n))
        else emptyNode p
      | _ => emptyNode p

/-- A node of which there is only an anchor or a tag. -/
def emptyNode (p : Properties) : Grammar Node :=
  if p.start.isSome || p.tag.isSome then keepNode p.start (.scalar true p.tag "") else fail

/-- A node, or an empty one before one of some tokens. -/
def nodeUnless (ends : List Token) (block indentless : Bool) : Nat → Grammar Node
  | 0 => fail
  | n + 1 => do
    if ← follows ends then return empty else node block indentless n

/-- The entries of a block sequence. -/
def blockItems : Nat → Grammar (List Node)
  | 0 => fail
  | n + 1 => do
    if ← accept .blockEntry then
      let item ← nodeUnless [.blockEntry, .blockEnd] true false n
      return item :: (← blockItems n)
    else if ← accept .blockEnd then return []
    else fail

/-- The entries of a sequence that is indented like the mapping around it. -/
def indentlessItems : Nat → Grammar (List Node)
  | 0 => fail
  | n + 1 => do
    if ← accept .blockEntry then
      let item ← nodeUnless [.blockEntry, .key, .value, .blockEnd] true false n
      return item :: (← indentlessItems n)
    else return []

/-- The fields of a block mapping. -/
def blockFields : Nat → Grammar (List (Node × Node))
  | 0 => fail
  | n + 1 => do
    if ← accept .blockEnd then return []
    else if ← accept .key then
      let key ← nodeUnless [.key, .value, .blockEnd] true true n
      let value ← if ← accept .value then nodeUnless [.key, .value, .blockEnd] true true n
        else pure empty
      return (key, value) :: (← blockFields n)
    else fail

/-- The entries of a sequence in brackets. An entry may be a mapping of one key. -/
def flowItems (first : Bool) : Nat → Grammar (List Node)
  | 0 => fail
  | n + 1 => do
    if ← accept .flowSequenceEnd then return []
    if !first then
      if !(← accept .flowEntry) then fail
      if ← accept .flowSequenceEnd then return []
    let item ← if ← accept .key then flowPair n else node false false n
    return item :: (← flowItems false n)

/-- The mapping of one key inside a sequence in brackets. A key that is left out takes the
next token with it. -/
def flowPair : Nat → Grammar Node
  | 0 => fail
  | n + 1 => do
    let key ← if ← follows [.value, .flowEntry, .flowSequenceEnd] then do
        skip
        pure empty
      else node false false n
    let value ← if ← accept .value then nodeUnless [.flowEntry, .flowSequenceEnd] false false n
      else pure empty
    return .map [(key, value)]

/-- The fields of a mapping in brackets. -/
def flowFields (first : Bool) : Nat → Grammar (List (Node × Node))
  | 0 => fail
  | n + 1 => do
    if ← accept .flowMappingEnd then return []
    if !first then
      if !(← accept .flowEntry) then fail
      if ← accept .flowMappingEnd then return []
    let field ← if ← accept .key then do
        let key ← nodeUnless [.value, .flowEntry, .flowMappingEnd] false false n
        let value ← if ← accept .value then nodeUnless [.flowEntry, .flowMappingEnd] false false n
          else pure empty
        pure (key, value)
      else do
        let key ← node false false n
        pure (key, empty)
    return field :: (← flowFields false n)

end

/-- The meanings of handles that need no directive. -/
def defaultHandles : List (String × String) := [("!", "!"), ("!!", "tag:yaml.org,2002:")]

/-- The directives before a document, after some of them have been read. -/
def directives (versioned : Bool) : Nat → Grammar Unit
  | 0 => fail
  | n + 1 => do
    match ← peek with
    | some (.version major minor) =>
      if versioned || major ≠ 1 || (minor ≠ 1 && minor ≠ 2) then throw .directive
      skip
      directives true n
    | some (.tagPrefix handle start) =>
      if ((← get).handles.lookup handle).isSome then throw .directive
      skip
      modify (fun s => { s with handles := (handle, start) :: s.handles })
      directives versioned n
    | _ => modify (fun s => { s with handles := s.handles ++ defaultHandles })

/-- The end of a document, after which there is nothing. -/
def documentEnd : Nat → Grammar Unit
  | 0 => fail
  | n + 1 => do
    if ← accept .documentEnd then documentEnd n
    else if (← peek).isSome then fail

/-- The token belongs to the start of a document. -/
def startsDocument : Token → Bool
  | .version _ _ | .tagPrefix _ _ | .documentStart => true
  | _ => false

/-- The one document of a text. -/
def document (n : Nat) : Grammar Node := do
  let explicit := (← peek).any startsDocument
  directives false n
  let root ← if explicit then do
      if !(← accept .documentStart) then fail
      let tokens := (← get).tokens
      if tokens.isEmpty || tokens.head?.any (fun t => startsDocument t || t = .documentEnd)
        then pure empty else node true false n
    else if (← peek).isNone then pure empty
    else node true false n
  documentEnd n
  return root

end Grammar

/-- The document of a list of tokens. -/
def Graph.ofTokens (tokens : List Token) : Except Fault Graph := do
  let (root, s) ← (Grammar.document (4 * tokens.length + 4)).run { tokens := tokens }
  return ⟨root, s.owners, s.nodes⟩

end CertKeeper.Yaml
