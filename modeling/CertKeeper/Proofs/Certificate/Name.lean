import CertKeeper.Certificate.Name
import CertKeeper.Proofs.Encoding.Der

/-!
# Reading distinguished names

A `Regular` name is read back as it was written (`Name.read?_write`): each of its entries has
an attribute, and the tags of the values take one octet. The name of a common name is one.
-/

namespace CertKeeper

namespace Attribute

/-- The tag of the value takes one octet. -/
def Regular (a : Attribute) : Prop := a.tag < 31

theorem read?_write {a : Attribute} (h : a.Regular) (hshort : Der.Short a.write) (rest : Octets) :
  read? (a.write ++ rest) = some (a, rest)
  := by
  have hitems : Der.Short [Der.oid a.oid, Der.write (UInt8.ofNat a.tag) a.value].flatten :=
    hshort.of_write
  have hoidItem : Der.Short (Der.oid a.oid) := hitems.of_mem_flatten (by simp)
  have hvalueItem : Der.Short (Der.write (UInt8.ofNat a.tag) a.value) :=
    hitems.of_mem_flatten (by simp)
  have hoid : Der.Short a.oid := hoidItem.of_write
  have hvalue : Der.Short a.value := hvalueItem.of_write
  have htag : (UInt8.ofNat a.tag).toNat = a.tag := by
    have : a.tag < 31 := h
    rw [UInt8.toNat_ofNat']
    omega
  have hnumber : a.tag % 32 = a.tag := by
    have : a.tag < 31 := h
    omega
  have helement := Der.element?_write (UInt8.ofNat a.tag)
    (by rw [htag, hnumber]; exact Nat.ne_of_lt h) hvalue []
  simp only [read?, write, Der.tagged?_sequence hitems, Option.bind_eq_bind, Option.bind_some,
    List.flatten_cons, List.flatten_nil, Der.primitive?_oid hoid, helement, Der.written, htag, hnumber]
  rfl

theorem write_ne_nil (a : Attribute) :
  a.write ≠ []
  := Der.write_ne_nil _ _

theorem regular_commonName (text : String) :
  (commonName text).Regular
  := by
  show 12 < 31
  decide

@[simp]
theorem text?_commonName (text : String) :
  (commonName text).text? = some text
  := Octets.text?_ofText text

end Attribute

namespace Name

/-- Each entry has an attribute, and all attributes are regular. -/
def Regular (n : Name) : Prop := ∀ entry ∈ n, entry ≠ [] ∧ ∀ a ∈ entry, a.Regular

theorem entry?_set {entry : List Attribute} (hne : entry ≠ []) (h : ∀ a ∈ entry, a.Regular)
    (hshort : Der.Short (Der.set (entry.map Attribute.write))) (rest : Octets) :
  entry? (Der.set (entry.map Attribute.write) ++ rest) = some (entry, rest)
  := by
  have hitems : Der.Short (entry.map Attribute.write).flatten := hshort.of_write
  have hmany : Der.many Attribute.read? (entry.map Attribute.write).flatten = (entry, []) := by
    apply Der.many_flatMap Attribute.write
    · intro a ha rest'
      apply Attribute.read?_write (h a ha)
      apply hitems.of_mem_flatten (List.mem_map_of_mem ha)
    · rfl
    · intro a _
      apply a.write_ne_nil
  simp [ entry?, Der.tagged?_set hitems, hmany, hne]

/-- A name that is written is read back. -/
theorem read?_write {n : Name} (h : n.Regular) (hshort : Der.Short n.write) (rest : Octets) :
  read? (n.write ++ rest) = some (n, rest)
  := by
  have hitems : Der.Short (n.map (fun entry => Der.set (entry.map Attribute.write))).flatten :=
    hshort.of_write
  have hmany : Der.many entry? (n.map (fun entry => Der.set (entry.map Attribute.write))).flatten
      = (n, []) := by
    apply Der.many_flatMap (fun entry : List Attribute => Der.set (entry.map Attribute.write))
    · intro entry hentry rest'
      obtain ⟨hne, hregular⟩ := h entry hentry
      apply entry?_set hne hregular
      apply hitems.of_mem_flatten (List.mem_map_of_mem hentry)
    · rfl
    · intro entry _
      apply Der.write_ne_nil
  simp only [read?, write, Der.tagged?_sequence hitems, hmany, Option.bind_eq_bind, Option.bind_some]
  rfl

theorem regular_ofCommonName (text : String) :
  (ofCommonName text).Regular
  := by
  intro entry hentry
  obtain rfl := List.mem_singleton.mp hentry
  constructor
  · simp
  · intro a ha
    obtain rfl := List.mem_singleton.mp ha
    apply Attribute.regular_commonName

@[simp]
theorem commonName_ofCommonName (text : String) :
  (ofCommonName text).commonName = text
  := by
  have hfind : (ofCommonName text).flatten.find? (fun a => a.oid = commonNameOid)
      = some (Attribute.commonName text) := rfl
  rw [commonName, hfind, Option.bind_some, Attribute.text?_commonName]
  rfl

end Name

end CertKeeper
