import CertKeeper.Key.Private
import CertKeeper.Proofs.Encoding.Der
import CertKeeper.Proofs.Encoding.Pem

/-!
# Reading private keys

The text of a new key pair holds its private key (`KeyPair.ofPem?_generate`). The record is
taken apart item by item. Each item is shorter than 256 octets, so that its length takes at
most two of them.
-/

namespace CertKeeper

/-- No two algorithms make signatures of the same type. -/
theorem KeyAlgorithm.ofSignatureOid?_signatureOid (a : KeyAlgorithm) :
  ofSignatureOid? a.signatureOid = some a
  := by
  cases a <;> rfl

namespace PrivateKey

theorem length_write {tag : UInt8} {content : Octets} (h : content.length < 128) :
  (Der.write tag content).length = content.length + 2
  := by
  rw [Der.write, Der.lengthOctets, if_pos h]
  simp

/-- An item that is written is read back. -/
theorem item?_write (tag : UInt8) {content : Octets} (h : content.length < 256) (rest : Octets) :
  item? tag (Der.write tag content ++ rest) = some (content, rest)
  := by
  have hle : content.length ≤ (content ++ rest).length := by simp
  have hoctet : (UInt8.ofNat content.length).toNat = content.length := by
    rw [UInt8.toNat_ofNat']
    omega
  rw [Der.write, Der.lengthOctets]
  split
  · rename_i hsmall
    have hlt : UInt8.ofNat content.length < 128 := by
      rw [UInt8.lt_iff_toNat_lt, hoctet]
      apply hsmall
    simp [item?, hlt, hoctet]
  · rename_i hlarge
    have hwidth : Octets.width content.length = 1 := by
      have hlog : content.length.log2 = 7 := by
        rw [Nat.log2_eq_iff (by omega)]
        omega
      rw [Octets.width, if_neg (by omega), hlog]
    have hminimal : Octets.minimal content.length = [UInt8.ofNat content.length] := by
      rw [Octets.minimal, hwidth]
      simp [Octets.ofNat, Octets.ofNatBefore, Nat.mod_eq_of_lt h]
    have hle' : 128 ≤ UInt8.ofNat content.length := by
      rw [UInt8.le_iff_toNat_le, hoctet]
      simpa using hlarge
    have hshort : content.length < Nat.pow 2 64 := by
      have : 256 < Nat.pow 2 64 := by decide
      omega
    rw [if_pos hshort, hwidth, hminimal]
    simp [item?, hle', hoctet]

/-- An item with another tag is not there. -/
theorem item?_write_of_ne {tag tag' : UInt8} (h : tag ≠ tag') (content rest : Octets) :
  item? tag' (Der.write tag content ++ rest) = none
  := by
  rw [Der.write]
  cases hmore : Der.lengthOctets content.length ++ content ++ rest with
  | nil => simp [item?, hmore]
  | cons n more => simp [item?, hmore, h]

theorem only?_write (tag : UInt8) {content : Octets} (h : content.length < 256) :
  only? tag (Der.write tag content) = some content
  := by
  have := item?_write tag h []
  rw [List.append_nil] at this
  rw [only?, this]

/-- A small number is read back. -/
theorem natural?_natural {n : Nat} (h : n < 2) (rest : Octets) :
  natural? (Der.natural n ++ rest) = some (n, rest)
  := by
  have hlength : (Der.naturalContent n).length < 256 := by
    obtain rfl | rfl : n = 0 ∨ n = 1 := by omega
    · decide
    · decide
  rw [natural?, Der.natural, item?_write 0x02 hlength rest]
  obtain rfl | rfl : n = 0 ∨ n = 1 := by omega
  · rfl
  · rfl

end PrivateKey

namespace KeyPair

open PrivateKey

variable {n : Nat}

theorem length_publicOctets (n : Nat) :
  (Curve.p256.publicOctets n).length = 65
  := by
  simp only [Curve.publicOctets, Curve.octets, List.length_cons, List.length_append,
    Octets.length_ofNat]
  rfl

/-- The part of a record with the public key. -/
def publicPart (n : Nat) : Octets := Der.write 0xA1 (Der.bitString (Curve.p256.publicOctets n))

/-- The parts of a record with the keys. -/
def keyPart (n : Nat) : Octets :=
  Der.natural 1 ++ (Der.octetString (Octets.ofNat Curve.p256.width n) ++ publicPart n)

theorem length_publicBits (n : Nat) :
  (0 :: Curve.p256.publicOctets n).length = 66
  := by
  rw [List.length_cons, length_publicOctets]

theorem length_bitString (n : Nat) :
  (Der.bitString (Curve.p256.publicOctets n)).length = 68
  := by
  rw [Der.bitString, length_write (by rw [length_publicBits]; decide), length_publicBits]

theorem length_publicPart (n : Nat) :
  (publicPart n).length = 70
  := by
  rw [publicPart, length_write (by rw [length_bitString]; decide), length_bitString]

theorem length_number (n : Nat) :
  (Der.octetString (Octets.ofNat Curve.p256.width n)).length = 34
  := by
  have hwidth : (Octets.ofNat Curve.p256.width n).length = 32 := Octets.length_ofNat _ _
  rw [Der.octetString, length_write (by rw [hwidth]; decide), hwidth]

theorem length_keyPart (n : Nat) :
  (keyPart n).length = 107
  := by
  rw [keyPart, List.length_append, List.length_append, length_number, length_publicPart]
  rfl

theorem length_keySequence (n : Nat) :
  (Der.write 0x30 (keyPart n)).length = 109
  := by
  rw [length_write (by rw [length_keyPart]; decide), length_keyPart]

/-- The parts of a record. -/
def parts (n : Nat) : Octets :=
  Der.natural 0 ++ (Der.sequence [KeyAlgorithm.identifier .p256]
    ++ Der.octetString (Der.write 0x30 (keyPart n)))

theorem length_parts (n : Nat) :
  (parts n).length = 135
  := by
  have hkey : (Der.octetString (Der.write 0x30 (keyPart n))).length = 111 := by
    rw [Der.octetString, length_write (by rw [length_keySequence]; decide), length_keySequence]
  rw [parts, List.length_append, List.length_append, hkey]
  rfl

theorem record_eq (n : Nat) :
  record n = Der.write 0x30 (parts n)
  := by
  simp only [record, Der.sequence, parts, keyPart, publicPart, List.flatten_cons, List.flatten_nil,
    List.append_nil]

/-- The record holds its key under the identifier of its algorithm, and no other. -/
theorem record?_record (identifier : Octets) (n : Nat) :
  record? identifier (record n)
    = if KeyAlgorithm.identifier .p256 = identifier then some (Der.write 0x30 (keyPart n), none)
      else none
  := by
  have halgorithm : ∀ rest, item? 0x30 (Der.sequence [KeyAlgorithm.identifier .p256] ++ rest)
      = some (KeyAlgorithm.identifier .p256, rest) := by
    intro rest
    have hlength : [KeyAlgorithm.identifier .p256].flatten.length < 256 := by decide
    rw [Der.sequence, item?_write 0x30 hlength rest]
    simp
  have hlength : (Der.write 0x30 (keyPart n)).length < 256 := by
    rw [length_keySequence]
    decide
  have hkey := item?_write 0x04 hlength []
  rw [List.append_nil] at hkey
  have hrest : item? 0xA0 [] = none := rfl
  rw [record?, record_eq, only?_write 0x30 (by rw [length_parts]; decide)]
  simp only [Option.bind_eq_bind, Option.bind_some, parts, natural?_natural (show 0 < 2 by decide),
    halgorithm, Der.octetString, hkey, hrest]
  by_cases h : KeyAlgorithm.identifier .p256 = identifier
  · rw [if_neg (not_not_intro h), if_pos h]
    rfl
  · rw [if_pos h, if_neg h]
    rfl

/-- The record of a private number is read as its key. -/
theorem ofOctets?_record (hpos : 0 < n) (hlt : n < Curve.p256.order) :
  PrivateKey.ofOctets? (record n) = some ⟨.p256, Curve.p256.publicOctets n⟩
  := by
  have hnumber : Curve.p256.privateNumber? (Octets.ofNat Curve.p256.width n) = some n := by
    have hread : Octets.toNat (Octets.ofNat Curve.p256.width n) = n := by
      apply Octets.toNat_ofNat
      apply Nat.lt_trans hlt
      decide
    simp only [Curve.privateNumber?, hread, Octets.length_ofNat]
    rw [if_pos ⟨trivial, hpos, hlt⟩]
  have hothers : KeyAlgorithm.identifier .p256 ≠ KeyAlgorithm.identifier .ed25519 := by decide
  have hed : PrivateKey.ofEd25519? (record n) = none := by
    simp only [PrivateKey.ofEd25519?, record?_record, if_neg hothers, Option.bind_eq_bind,
      Option.bind_none]
  have hparts : only? 0x30 (Der.write 0x30 (keyPart n)) = some (keyPart n) :=
    only?_write 0x30 (by rw [length_keyPart]; decide)
  have hversion : natural? (keyPart n)
      = some (1, Der.octetString (Octets.ofNat Curve.p256.width n) ++ publicPart n) :=
    natural?_natural (by decide) _
  have hoctets : item? 0x04 (Der.octetString (Octets.ofNat Curve.p256.width n) ++ publicPart n)
      = some (Octets.ofNat Curve.p256.width n, publicPart n) := by
    apply item?_write 0x04
    rw [Octets.length_ofNat]
    decide
  have hoid : item? 0xA0 (publicPart n) = none := by
    have := item?_write_of_ne (show 0xA1 ≠ 0xA0 by decide)
      (Der.bitString (Curve.p256.publicOctets n)) []
    rwa [List.append_nil] at this
  have hpublic : only? 0xA1 (publicPart n) = some (Der.bitString (Curve.p256.publicOctets n)) :=
    only?_write 0xA1 (by rw [length_bitString]; decide)
  have hbits : only? 0x03 (Der.bitString (Curve.p256.publicOctets n))
      = some (0 :: Curve.p256.publicOctets n) :=
    only?_write 0x03 (by rw [length_publicBits]; decide)
  have hcurve : ∀ oid, PrivateKey.ofCurve? .p256 Curve.p256 oid (record n)
      = some ⟨.p256, Curve.p256.publicOctets n⟩ := by
    intro oid
    simp only [PrivateKey.ofCurve?, record?_record, if_true, Option.bind_eq_bind, Option.bind_some,
      Option.isSome_none, Bool.false_eq_true, if_false, hparts, hversion, ne_eq, not_true_eq_false,
      hoctets, hoid, hpublic, hbits, fullBits?, hnumber]
  rw [PrivateKey.ofOctets?, hed, hcurve]
  rfl

theorem tagged_privateKey (n : Nat) :
  (⟨"PRIVATE KEY", record n⟩ : Pem.Block).Tagged
  := by
  constructor
  · show "PRIVATE KEY" ≠ ""
    decide
  · have hall : "PRIVATE KEY".toList.all (fun c => c ≠ '-') = true := by decide
    intro c hc
    apply of_decide_eq_true (List.all_eq_true.mp hall c hc)

/-- The text of a new key pair holds its private key. -/
theorem ofPem?_generate (seed : Nat) :
  PrivateKey.ofPem? (generate seed).pem = some (generate seed).key
  := by
  have hlt : seed % (Curve.p256.order - 1) + 1 < Curve.p256.order := by
    have hpos : 0 < Curve.p256.order - 1 := by decide
    have := Nat.mod_lt seed hpos
    omega
  rw [generate, ofNumber, PrivateKey.ofPem?, Pem.first_encode (tagged_privateKey _), Option.bind_some]
  apply ofOctets?_record (Nat.succ_pos _) hlt

/-- New key pairs are on P-256. -/
theorem algorithm_generate (seed : Nat) :
  (generate seed).key.algorithm = .p256
  := rfl

end KeyPair

end CertKeeper
