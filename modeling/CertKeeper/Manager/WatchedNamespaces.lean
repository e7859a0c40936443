import CertKeeper.Text.Blank

/-!
# Namespaces to watch

The process watches the namespace it is installed in and further ones.
-/

namespace CertKeeper

/-- The texts without blanks at their ends, each at its first place, and no empty one. -/
def distinctNames (names : List String) : List String :=
  ((names.map trimBlank).filter (fun name => !name.isEmpty)).foldl
    (fun seen name => if seen.contains name then seen else seen ++ [name]) []

/-- The namespaces to watch: the further ones, then the one of the installation. -/
def watchedNamespaces (install : String) (additional : List String) : List String :=
  distinctNames (additional ++ [install])

end CertKeeper
