import CertKeeper.Document

/-!
# Nodes

A document of a text is a tree of nodes in which an alias stands for a node that an anchor
names. Anchors are numbered, and `Graph.target?` is the node that a number stands for.
`Graph.unfold` replaces aliases by what they stand for, as deep as a reader looks.
-/

namespace CertKeeper.Yaml

/-- A part of a document. -/
inductive Node where
  | scalar (isPlain : Bool) (tag : Option String) (text : String)
  | list (items : List Node)
  | map (fields : List (Node × Node))
  | aliasOf (number : Nat)

/-- A node with the nodes that its aliases may stand for. A number belongs to the node
whose anchor took it last; nodes with anchors are told apart by the order in which they
start. -/
structure Graph where
  root : Node
  owners : List (Nat × Nat)
  nodes : List (Nat × Node)

/-- The tag of a scalar that stands for nothing. -/
def nullTag : String := "tag:yaml.org,2002:null"

/-- The document of a scalar. -/
def scalarDocument (isPlain : Bool) (tag : Option String) (text : String) : Document :=
  if isPlain then
    match tag with
    | none => .plain text
    | some tag => if tag = nullTag then .marked text else .text text
  else .text text

namespace Graph

/-- The node that a number stands for. -/
def target? (g : Graph) (number : Nat) : Option Node := do
  g.nodes.lookup (← g.owners.lookup number)

/-- The node that a node stands for, if it is an alias. -/
def resolve (g : Graph) : Node → Node
  | .aliasOf number => (g.target? number).getD (.aliasOf number)
  | node => node

/-- The document of a node down to a depth. -/
def unfold (g : Graph) : Nat → Node → Document
  | 0, _ => .null
  | depth + 1, node =>
    match g.resolve node with
    | .scalar isPlain tag text => scalarDocument isPlain tag text
    | .list items => .list (items.map (g.unfold depth))
    | .map fields => .map (fields.map (fun field => (g.unfold depth field.1, g.unfold depth field.2)))
    | .aliasOf _ => .null

end Graph

end CertKeeper.Yaml
