import CertKeeper.Proofs.Cluster.Store

/-!
# Reading what was written on an object

What is set on an object is read there, everything else on it stays as it was, and neither
its place nor a version that the store gives it matters for that.
-/

namespace CertKeeper

namespace Object

variable {k : Kind}

@[simp]
theorem name_annotate (o : Object k) (key value : String) :
  (o.annotate key value).name = o.name
  := rfl

@[simp]
theorem version_annotate (o : Object k) (key value : String) :
  (o.annotate key value).version = o.version
  := rfl

@[simp]
theorem content_annotate (o : Object k) (key value : String) :
  (o.annotate key value).content = o.content
  := rfl

/-- An annotation that is set is read, and the others stay. -/
theorem annotationAt?_annotate (o : Object k) (key key' value : String) :
  (o.annotate key value).annotationAt? key' = if key' = key then some value else o.annotationAt? key'
  := by
  simp only [annotationAt?, annotate, Metadata.annotationAt?, Metadata.annotate, Option.bind_some]
  split
  · rename_i h
    subst h
    apply Dict.get?_insert_self
  · rename_i h
    rw [Dict.get?_insert_of_ne _ _ h]
    cases o.metadata.annotations <;> rfl

@[simp]
theorem annotationAt?_stamped (s : Store) (ns key : String) (o : Object k) :
  (s.stamped ns o).annotationAt? key = o.annotationAt? key
  := rfl

@[simp]
theorem content_stamped (s : Store) (ns : String) (o : Object k) :
  (s.stamped ns o).content = o.content
  := rfl

end Object

namespace Secret

variable {s : Secret}

@[simp]
theorem name_withText (s : Secret) (key value : String) :
  (s.withText key value).name = s.name
  := rfl

@[simp]
theorem version_withText (s : Secret) (key value : String) :
  (s.withText key value).version = s.version
  := rfl

@[simp]
theorem annotationAt?_withText (s : Secret) (key value name : String) :
  (s.withText key value).annotationAt? name = s.annotationAt? name
  := rfl

/-- The bytes at a key depend on the content only. -/
theorem bytes?_of_content {s' : Secret} (h : s'.content = s.content) (key : String) :
  s'.bytes? key = s.bytes? key
  := by
  rw [bytes?, bytes?, h]

theorem text?_of_content {s' : Secret} (h : s'.content = s.content) (key : String) :
  s'.text? key = s.text? key
  := by
  rw [text?, text?, bytes?_of_content h]

@[simp]
theorem text?_annotate (s : Secret) (name value key : String) :
  Secret.text? (s.annotate name value) key = s.text? key
  := text?_of_content rfl key

@[simp]
theorem text?_stamped (store : Store) (ns key : String) (s : Secret) :
  Secret.text? (store.stamped ns s) key = s.text? key
  := text?_of_content rfl key

/-- A text that is set is read, and the values at other keys stay. -/
theorem bytes?_withText (s : Secret) (key key' value : String) :
  (s.withText key value).bytes? key' = if key' = key then some value.toUTF8 else s.bytes? key'
  := by
  simp only [bytes?, withText, Option.bind_some]
  by_cases h : key' = key
  · rw [if_pos h, h, Dict.get?_insert_self]
  · rw [if_neg h, Dict.get?_insert_of_ne _ _ h]
    cases s.content.data <;> rfl

theorem text?_withText (s : Secret) (key key' value : String) :
  (s.withText key value).text? key' = if key' = key then some value else s.text? key'
  := by
  rw [text?, bytes?_withText]
  by_cases h : key' = key
  · have hvalid : value.toUTF8.IsValidUTF8 := value.isValidUTF8
    rw [if_pos h, if_pos h, Option.bind_some, String.fromUTF8?, dif_pos hvalid]
    rfl
  · rw [if_neg h, if_neg h, text?]

end Secret

/-- A text that is set is read, and the texts at other keys stay. -/
theorem ConfigMap.text?_withText (m : ConfigMap) (key key' value : String) :
  (m.withText key value).text? key' = if key' = key then some value else m.text? key'
  := by
  simp only [text?, withText, Option.bind_some]
  by_cases h : key' = key
  · rw [if_pos h, h, Dict.get?_insert_self]
  · rw [if_neg h, Dict.get?_insert_of_ne _ _ h]
    cases m.content.data <;> rfl

end CertKeeper
