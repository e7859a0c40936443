import CertKeeper.CommandLine.KeeperOptions
import CertKeeper.Definition.File
import CertKeeper.Manager.WatchedNamespaces

/-!
# Settings

`Settings.resolve` makes settings of the options of a command line: it finds the
namespaces to watch and reads the definitions. A definition that uses a namespace which is
not watched is worth a warning.
-/

namespace CertKeeper

/-- What a keeper needs to start. -/
structure Settings where
  namespaces : List String
  definitions : List Definition
  resyncInterval : Duration
  cacheSyncTimeout : Duration

/-- The use of a namespace that is not watched. -/
structure UnwatchedUse where
  signer : ResourceRef
  ns : String
  deriving DecidableEq

/-- The text of a warning. -/
def UnwatchedUse.text (use : UnwatchedUse) : String :=
  "Definition for " ++ use.signer.text ++ " uses namespace " ++ use.ns ++ " which is not watched"

/-- The namespace that the account of a pod belongs to, given the content of its file. -/
def accountNamespace (content : Option ByteArray) : Except Error String := do
  let text ← fileText content
  return String.ofList (text.toList.reverse.dropWhile (· = '\n')).reverse

namespace Settings

/-- The settings for a command line, given the content of the file of the account's
namespace and of the file of the definitions. -/
def resolve (options : CommandLine.KeeperOptions) (account definitions : Option ByteArray) :
    Except Error Settings := do
  let install ← match options.installNamespace with
    | some ns => pure ns
    | none => accountNamespace account
  let definitions ← Definition.ofFile definitions
  return {
    namespaces := watchedNamespaces install options.additionalNamespaces
    definitions := definitions
    resyncInterval := options.resyncInterval
    cacheSyncTimeout := options.cacheSyncTimeout }

/-- The uses of namespaces that are not watched. -/
def warnings (s : Settings) : List UnwatchedUse :=
  s.definitions.flatMap (fun d =>
    (d.namespaces.filter (fun ns => !s.namespaces.contains ns)).map (fun ns => ⟨d.signer, ns⟩))

end Settings

end CertKeeper
