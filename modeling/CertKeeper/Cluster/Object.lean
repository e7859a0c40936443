import CertKeeper.Dict
import CertKeeper.ResourceRef

/-!
# Objects

The cluster keeps objects of two kinds, secrets and config maps. An `Object k` has
`Metadata`, which both kinds have in common, and the `Content` of its kind. The values of
a secret are bytes; `Secret.text?` reads one of them as text and `Secret.withText` sets
one to a text. `stringData` holds texts that the cluster has not taken over into `data`
yet, and counts where `data` has no value.
-/

namespace CertKeeper

/-- The kinds of objects. -/
inductive Kind where
  | configMap
  | secret
  deriving DecidableEq, Repr

/-- What an object has whatever its kind. -/
structure Metadata where
  name : String
  ns : Option String := none
  version : Option String := none
  annotations : Option (Dict String String) := none
  labels : Option (Dict String String) := none
  deriving DecidableEq

instance decidableEqOctets : DecidableEq ByteArray := fun a b =>
  if h : a.data = b.data then isTrue (ByteArray.ext h) else isFalse (fun e => h (e ▸ rfl))

/-- The values of a secret. -/
structure SecretContent where
  data : Option (Dict String ByteArray) := none
  stringData : Option (Dict String String) := none
  type : Option String := none
  deriving DecidableEq

/-- The values of a config map. -/
structure ConfigMapContent where
  data : Option (Dict String String) := none
  deriving DecidableEq

/-- What an object of a kind holds. -/
@[reducible]
def Content : Kind → Type
  | .configMap => ConfigMapContent
  | .secret => SecretContent

instance : (k : Kind) → DecidableEq (Content k)
  | .configMap => inferInstanceAs (DecidableEq ConfigMapContent)
  | .secret => inferInstanceAs (DecidableEq SecretContent)

/-- An object of a kind. -/
structure Object (k : Kind) where
  metadata : Metadata
  content : Content k
  deriving DecidableEq

/-- A secret. -/
abbrev Secret := Object .secret

/-- A config map. -/
abbrev ConfigMap := Object .configMap

namespace Metadata

/-- The metadata of a new object. -/
def new (ref : ResourceRef) : Metadata := ⟨ref.name, some ref.ns, none, none, none⟩

/-- The annotation with a name. -/
def annotationAt? (m : Metadata) (name : String) : Option String :=
  m.annotations.bind (fun annotations => annotations.get? name)

/-- The metadata with an annotation set. -/
def annotate (m : Metadata) (name value : String) : Metadata :=
  { m with annotations := some ((m.annotations.getD ∅).insert name value) }

end Metadata

namespace Object

variable {k : Kind}

/-- The name of an object. -/
def name (o : Object k) : String := o.metadata.name

/-- The version that the cluster gave an object. -/
def version (o : Object k) : Option String := o.metadata.version

/-- The object in a namespace and with a version. -/
def placed (o : Object k) (ns version : String) : Object k :=
  { o with metadata := { o.metadata with ns := some ns, version := some version } }

/-- The annotation with a name. -/
def annotationAt? (o : Object k) (name : String) : Option String := o.metadata.annotationAt? name

/-- The object with an annotation set. -/
def annotate (o : Object k) (name value : String) : Object k :=
  { o with metadata := o.metadata.annotate name value }

end Object

namespace Secret

/-- A new secret without values. -/
def new (ref : ResourceRef) : Secret := ⟨Metadata.new ref, {}⟩

/-- The bytes at a key, from `data` or else from `stringData`. -/
def bytes? (s : Secret) (key : String) : Option ByteArray :=
  match s.content.data.bind (fun data => data.get? key) with
  | some bytes => some bytes
  | none => (s.content.stringData.bind (fun data => data.get? key)).map String.toUTF8

/-- The text at a key. There is none if the bytes at the key are no text. -/
def text? (s : Secret) (key : String) : Option String := (s.bytes? key).bind String.fromUTF8?

/-- The secret with a text at a key. -/
def withText (s : Secret) (key value : String) : Secret :=
  { s with content := { s.content with
    data := some ((s.content.data.getD ∅).insert key value.toUTF8) } }

/-- All values of a secret. -/
def values (s : Secret) : Dict String ByteArray :=
  (s.content.data.getD ∅).union
    ((s.content.stringData.getD ∅).mapValues (fun _ text => text.toUTF8))

end Secret

namespace ConfigMap

/-- A new config map without values. -/
def new (ref : ResourceRef) : ConfigMap := ⟨Metadata.new ref, {}⟩

/-- The text at a key. -/
def text? (m : ConfigMap) (key : String) : Option String :=
  m.content.data.bind (fun data => data.get? key)

/-- The config map with a text at a key. -/
def withText (m : ConfigMap) (key value : String) : ConfigMap :=
  { m with content := { m.content with data := some ((m.content.data.getD ∅).insert key value) } }

end ConfigMap

end CertKeeper
