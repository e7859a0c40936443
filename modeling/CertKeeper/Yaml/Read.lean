import CertKeeper.Yaml.Node.Grammar
import CertKeeper.Yaml.Token.Stream

/-!
# Documents of texts

`Yaml.read` reads a text as a document, down to a depth. An empty document is an empty
list.
-/

namespace CertKeeper.Yaml

/-- A node that is left out. -/
def Node.isEmpty : Node → Bool
  | .scalar true _ "" => true
  | _ => false

/-- The document of a text down to a depth. -/
def read (depth : Nat) (text : String) : Except Fault Document := do
  let graph ← Graph.ofTokens (← Token.ofText text)
  return if graph.root.isEmpty then .list [] else graph.unfold depth graph.root

end CertKeeper.Yaml
