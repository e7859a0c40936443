import CertKeeper.Certificate

/-!
# Certificates that can issue

To sign with the key of a certificate, all of its names and constraints are taken over,
and not every certificate allows that. `IssuerName.ofCertificate?` gives the name under
which a certificate issues others: its subject, in which each type of attribute stands
once, at its first place and with its last value. An entry of the subject may have only
one attribute, and its value has to be a text of one of six kinds.
-/

namespace CertKeeper.IssuerName

/-- The character belongs to the texts of a few common characters. -/
def isPrintable (c : Char) : Bool :=
  c.isAlphanum || " '()+,-./:=?".toList.contains c

/-- The value is a text in a wide encoding of `size` octets for each character, whose
numbers meet `valid`. -/
def isWide (valid : Nat → Bool) (size : Nat) : (fuel : Nat) → Octets → Bool
  | 0, value => value.isEmpty
  | fuel + 1, value =>
    value.isEmpty || (size ≤ value.length && valid (Octets.toNat (value.take size))
      && isWide valid size fuel (value.drop size))

/-- The number is a character of the first plane, except for its last one. -/
def isBasic (n : Nat) : Bool := n < 0xD800 || (0xE000 ≤ n && n < 0xFFFF)

/-- The number is a character. -/
def isCharacter (n : Nat) : Bool := n < 0xD800 || (0xE000 ≤ n && n < 0x110000)

/-- The value of an attribute is a text that its tag allows. -/
def isText (a : Attribute) : Bool :=
  match a.tag with
  | 12 => (Octets.text? a.value).isSome
  | 19 => (Octets.text? a.value).any (fun s => s.toList.all isPrintable)
  | 20 => a.value.all (fun b => 0x20 ≤ b && b ≤ 0x7F)
  | 22 => a.value.all (fun b => b < 0x80)
  | 28 => isWide isCharacter 4 a.value.length a.value
  | 30 => isWide isBasic 2 a.value.length a.value
  | _ => false

/-- The attributes with `a` in the place of the one of its type, or at the end. -/
def push (attributes : List Attribute) (a : Attribute) : List Attribute :=
  if attributes.any (fun b => b.oid = a.oid) then
    attributes.map (fun b => if b.oid = a.oid then a else b)
  else
    attributes ++ [a]

/-- The name as an issuer takes it over. -/
def ofName? (n : Name) : Option Name := do
  let attributes ← n.mapM (fun
    | [a] => if isText a then some a else none
    | _ => none)
  return (attributes.foldl push []).map (fun a => [a])

/-- The text has only ASCII characters. -/
def isAscii (text : String) : Bool := text.toList.all (fun c => c.toNat < 0x80)

/-- The value of another kind of name is a text in UTF-8. -/
def isOtherText (value : Octets) : Bool :=
  match Der.element? value with
  | some (e, _) =>
    e.cls = 2 && e.constructed && e.tag = 0 &&
      (match Der.element? e.content with
      | some (inner, _) => inner.tag = utf8StringTag && (Octets.text? inner.content).isSome
      | none => false)
  | none => false

/-- An alternative name can be taken over. -/
def allowsAltName : AltName → Bool
  | .mail text | .dns text | .uri text => isAscii text
  | .address value => value.length = 4 || value.length = 16
  | .other _ value => isOtherText value
  | _ => false

/-- The bases of the subtrees of names in octets. -/
def subtrees? (bytes : Octets) : Option (List AltName) :=
  (Der.all? (fun bytes => do
    let (content, rest) ← Der.tagged? Der.sequenceTag bytes
    let (base, _) ← AltName.read? content
    return (base, rest)) bytes).filter (fun bases => !bases.isEmpty)

/-- The bases of the subtrees of the value of an extension that constrains names. -/
def nameConstraints? (value : Octets) : Option (List AltName) := do
  let (content, _) ← Der.tagged? Der.sequenceTag value
  let elements := (Der.many Der.element? content).1
  let subtrees ← (elements.filter (fun e => e.cls = 2 ∧ e.tag < 2)).mapM (fun e => subtrees? e.content)
  return subtrees.flatten

/-- The base of a subtree can be taken over. -/
def allowsSubtree : AltName → Bool
  | .directory name => (ofName? name).isSome
  | _ => true

/-- The name under which a certificate issues others. -/
def ofCertificate? (c : Certificate) : Option Name := do
  let name ← ofName? c.subject
  let constraints ← c.extension? Extension.constraintsOid BasicConstraints.ofValue?
  if constraints.any (fun b => b.isAuthority && b.pathLength.any (fun n => 255 < n)) then none
  let altNames ← c.extension? Extension.altNamesOid AltName.ofValue?
  if !(altNames.getD []).all allowsAltName then none
  let _ ← c.extension? Extension.keyUsageOid KeyUse.ofValue?
  let _ ← c.extension? Extension.extendedUsageOid ExtendedUsage.ofValue?
  let subtrees ← c.extension? Extension.nameConstraintsOid nameConstraints?
  if !(subtrees.getD []).all allowsSubtree then none
  return name

end CertKeeper.IssuerName
