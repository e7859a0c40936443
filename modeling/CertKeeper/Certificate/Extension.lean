import CertKeeper.Certificate.Name

/-!
# Extensions of certificates

An `Extension` has a type and a value, whose octets are read as the type says. The types
that matter here are alternative names, the basic constraints of authorities, the uses of
the key, its extended uses, and the identifiers of keys.
-/

namespace CertKeeper

/-- A typed value beside the fields of a certificate. -/
structure Extension where
  oid : Octets
  critical : Bool
  value : Octets
  deriving DecidableEq

namespace Extension

/-- The type of alternative names. -/
def altNamesOid : Octets := [0x55, 0x1D, 0x11]

/-- The type of basic constraints. -/
def constraintsOid : Octets := [0x55, 0x1D, 0x13]

/-- The type of the uses of the key. -/
def keyUsageOid : Octets := [0x55, 0x1D, 0x0F]

/-- The type of the extended uses of the key. -/
def extendedUsageOid : Octets := [0x55, 0x1D, 0x25]

/-- The type of the identifier of the certificate's key. -/
def subjectKeyOid : Octets := [0x55, 0x1D, 0x0E]

/-- The type of the identifier of the issuer's key. -/
def authorityKeyOid : Octets := [0x55, 0x1D, 0x23]

/-- The type of the constraints on names. -/
def nameConstraintsOid : Octets := [0x55, 0x1D, 0x1E]

/-- A truth value at the start of octets, or false if there is none. -/
def critical? (bytes : Octets) : Bool × Octets :=
  match Der.tagged? Der.booleanTag bytes with
  | some ([b], rest) => (b ≠ 0, rest)
  | _ => (false, bytes)

/-- The extension at the start of octets. -/
def read? (bytes : Octets) : Option (Extension × Octets) := do
  let (content, rest) ← Der.tagged? Der.sequenceTag bytes
  let (oid, content) ← Der.primitive? Der.oidTag content
  let (critical, content) := critical? content
  let (value, _) ← Der.primitive? Der.octetStringTag content
  return (⟨oid, critical, value⟩, rest)

/-- The octets of an extension. -/
def write (x : Extension) : Octets :=
  Der.sequence [Der.oid x.oid, if x.critical then Der.isTrue else [], Der.octetString x.value]

end Extension

/-! ### Alternative names -/

/-- A name of a subject beside its distinguished name. -/
inductive AltName where
  | other (oid : Octets) (value : Octets)
  | mail (text : String)
  | dns (text : String)
  | x400 (value : Octets)
  | directory (name : Name)
  | edi (value : Octets)
  | uri (text : String)
  | address (value : Octets)
  | registered (oid : Octets)

namespace AltName

/-- The name of an element. -/
def ofElement? (e : Der.Element) : Option AltName :=
  if e.cls ≠ 2 then
    none
  else
    match e.tag with
    | 0 => (Der.primitive? Der.oidTag e.content).map (fun p => other p.1 p.2)
    | 1 => (Octets.text? e.content).map mail
    | 2 => (Octets.text? e.content).map dns
    | 3 => some (x400 e.content)
    | 4 =>
      match Name.read? e.content with
      | some (name, []) => some (directory name)
      | _ => none
    | 5 => some (edi e.content)
    | 6 => (Octets.text? e.content).map uri
    | 7 => some (address e.content)
    | 8 => some (registered e.content)
    | _ => none

/-- The name at the start of octets. -/
def read? (bytes : Octets) : Option (AltName × Octets) := do
  let (e, rest) ← Der.element? bytes
  return (← ofElement? e, rest)

/-- The names of the value of an extension. -/
def ofValue? (value : Octets) : Option (List AltName) := do
  let (content, _) ← Der.tagged? Der.sequenceTag value
  Der.all? read? content

/-- The value of an extension with host names. -/
def valueOfHostnames (hostnames : List String) : Octets :=
  Der.sequence (hostnames.map (fun host => Der.write 0x82 (Octets.ofText host)))

/-- The host name of a name. -/
def hostname? : AltName → Option String
  | dns text => some text
  | _ => none

end AltName

/-! ### Basic constraints -/

/-- Whether the subject may issue certificates, and how long a path may follow. -/
structure BasicConstraints where
  isAuthority : Bool
  pathLength : Option Nat
  deriving DecidableEq

namespace BasicConstraints

/-- The truth value of an element. -/
def boolean? (e : Der.Element) : Option Bool :=
  if e.tag = Der.booleanTag then
    match e.content with
    | [0] => some false
    | [0xFF] => some true
    | _ => none
  else
    none

/-- The number of an element, below `2 ^ 32`. -/
def number? (e : Der.Element) : Option Nat :=
  if e.tag = Der.integerTag then
    (Der.natural? e.content).filter (fun n => n < Nat.pow 2 32)
  else
    none

/-- The constraints of the value of an extension. -/
def ofValue? (value : Octets) : Option BasicConstraints := do
  let (content, _) ← Der.tagged? Der.sequenceTag value
  match ← Der.all? Der.element? content with
  | [] => return ⟨false, none⟩
  | [e] =>
    match boolean? e with
    | some isAuthority => return ⟨isAuthority, none⟩
    | none => return ⟨false, some (← number? e)⟩
  | [e, f] => return ⟨← boolean? e, some (← number? f)⟩
  | _ => none

/-- The value of an extension for an authority without a limit. -/
def authorityValue : Octets := Der.sequence [Der.isTrue]

end BasicConstraints

/-! ### Uses of the key -/

/-- Uses of a key. -/
inductive KeyUse where
  | digitalSignature | nonRepudiation | keyEncipherment | dataEncipherment | keyAgreement
  | keyCertSign | crlSign
  deriving DecidableEq

namespace KeyUse

/-- The uses in the order of their bits. -/
def all : List KeyUse :=
  [digitalSignature, nonRepudiation, keyEncipherment, dataEncipherment, keyAgreement,
    keyCertSign, crlSign]

/-- The name of a use. -/
def name : KeyUse → String
  | digitalSignature => "digitalSignature"
  | nonRepudiation => "nonRepudiation"
  | keyEncipherment => "keyEncipherment"
  | dataEncipherment => "dataEncipherment"
  | keyAgreement => "keyAgreement"
  | keyCertSign => "keyCertSign"
  | crlSign => "cRLSign"

/-- The number of the bit of a use, counted from the highest of an octet. -/
def bit : KeyUse → Nat
  | digitalSignature => 0
  | nonRepudiation => 1
  | keyEncipherment => 2
  | dataEncipherment => 3
  | keyAgreement => 4
  | keyCertSign => 5
  | crlSign => 6

/-- The uses of the value of an extension. -/
def ofValue? (value : Octets) : Option (List KeyUse) := do
  let (bits, _) ← Der.bitString? value
  return all.filter (fun use => (bits.headD 0).toNat / Nat.pow 2 (7 - use.bit) % 2 = 1)

/-- The octet in which the bits of uses are set. -/
def octet (uses : List KeyUse) : UInt8 :=
  UInt8.ofNat ((all.filter uses.contains).foldl (fun bits use => bits + Nat.pow 2 (7 - use.bit)) 0)

/-- The value of an extension with uses. -/
def valueOf (uses : List KeyUse) : Octets :=
  Der.write 0x03 [UInt8.ofNat (Der.trailingZeros (octet uses)), octet uses]

end KeyUse

/-! ### Extended uses of the key -/

/-- The extended uses of a key that matter here. -/
structure ExtendedUsage where
  any : Bool
  serverAuth : Bool
  clientAuth : Bool
  deriving DecidableEq

namespace ExtendedUsage

/-- The type of every use. -/
def anyOid : Octets := [0x55, 0x1D, 0x25, 0x00]

/-- The type of the authentication of servers. -/
def serverAuthOid : Octets := [0x2B, 0x06, 0x01, 0x05, 0x05, 0x07, 0x03, 0x01]

/-- The type of the authentication of clients. -/
def clientAuthOid : Octets := [0x2B, 0x06, 0x01, 0x05, 0x05, 0x07, 0x03, 0x02]

/-- The uses of the value of an extension. -/
def ofValue? (value : Octets) : Option ExtendedUsage := do
  let (content, _) ← Der.tagged? Der.sequenceTag value
  let oids ← Der.all? (Der.primitive? Der.oidTag) content
  return ⟨oids.contains anyOid, oids.contains serverAuthOid, oids.contains clientAuthOid⟩

/-- The value of an extension with one use. -/
def valueOf (oid : Octets) : Octets := Der.sequence [Der.oid oid]

end ExtendedUsage

end CertKeeper
