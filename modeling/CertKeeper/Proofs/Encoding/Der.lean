import CertKeeper.Encoding.Der
import CertKeeper.Proofs.Encoding.Octets

/-!
# Reading distinguished encoding

An element that is written is read back (`Der.element?_write`), and so are the items of a
sequence (`Der.many_flatMap`), if their lengths can be written at all. Octets are `Short` if
they can, which goes over to their parts. Octets that are not short are never read.
-/

namespace CertKeeper.Der

/-! ### Lengths -/

/-- The length of the octets can be written. -/
def Short (bytes : Octets) : Prop := bytes.length < Nat.pow 2 64

instance (bytes : Octets) : Decidable (Short bytes) :=
  inferInstanceAs (Decidable (bytes.length < Nat.pow 2 64))

namespace Short

variable {a b content : Octets}

theorem left (h : Short (a ++ b)) :
  Short a
  := by
  have := @List.length_append _ a b
  unfold Short at *
  omega

theorem right (h : Short (a ++ b)) :
  Short b
  := by
  have := @List.length_append _ a b
  unfold Short at *
  omega

theorem of_mem_flatten {items : List Octets} (h : Short items.flatten) (ha : a ∈ items) :
  Short a
  := by
  have := (List.sublist_flatten_of_mem ha).length_le
  unfold Short at *
  omega

theorem of_write {tag : UInt8} (h : Short (write tag content)) :
  Short content
  := by
  rw [write] at h
  have hcons : (tag :: (lengthOctets content.length ++ content)).length
      = (lengthOctets content.length).length + content.length + 1 := by simp
  unfold Short at *
  omega

/-- The items of a sequence that is short are short. -/
theorem of_mem_sequence {items : List Octets} (h : Short (sequence items)) (ha : a ∈ items) :
  Short a
  := h.of_write.of_mem_flatten ha

end Short

theorem length?_lengthOctets {n : Nat} (h : n < Nat.pow 2 64) (rest : Octets) :
  length? (lengthOctets n ++ rest) = some (n, rest)
  := by
  unfold lengthOctets
  split
  · rename_i hn
    have hoctet : (UInt8.ofNat n).toNat = n := by
      rw [UInt8.toNat_ofNat']
      omega
    have hlt : UInt8.ofNat n < 128 := by
      rw [UInt8.lt_iff_toNat_lt, hoctet]
      apply hn
    rw [List.singleton_append, length?, if_pos hlt, hoctet]
  · rename_i hn
    have hwidth := Octets.width_le h
    have hpos := Octets.width_pos (n := n) (by omega)
    have hoctet : (UInt8.ofNat (128 + Octets.width n)).toNat = 128 + Octets.width n := by
      rw [UInt8.toNat_ofNat']
      omega
    have hlt : ¬ UInt8.ofNat (128 + Octets.width n) < 128 := by
      rw [UInt8.lt_iff_toNat_lt, hoctet]
      simp
    have htake : (Octets.minimal n ++ rest).take (Octets.width n) = Octets.minimal n :=
      List.take_left' (Octets.length_minimal n)
    have hdrop : (Octets.minimal n ++ rest).drop (Octets.width n) = rest :=
      List.drop_left' (Octets.length_minimal n)
    rw [List.cons_append, length?, if_neg hlt, hoctet, Nat.add_sub_cancel_left]
    simp only [htake, hdrop, Octets.toNat_minimal]
    rw [if_neg, if_pos h]
    rw [List.length_append, Octets.length_minimal]
    omega

/-- The length of octets that are not short is not read. -/
theorem length?_lengthOctets_eq_none {n : Nat} (h : ¬ n < Nat.pow 2 64) (rest : Octets) :
  length? (lengthOctets n ++ rest) = none
  := by
  have hlarge : ¬ n < 128 := by
    have : 128 ≤ Nat.pow 2 64 := by decide
    omega
  rw [lengthOctets, if_neg hlarge, if_neg h, List.singleton_append, length?, if_neg (by decide)]
  simp

/-! ### Elements -/

variable {tag : UInt8} {content : Octets}

/-- The element that is written with a tag of one octet. -/
def written (tag : UInt8) (content : Octets) : Element :=
  ⟨tag.toNat / 64, tag.toNat / 32 % 2 = 1, tag.toNat % 32, content⟩

theorem header?_write (tag : UInt8) (htag : tag.toNat % 32 ≠ 31) (h : Short content) (rest : Octets) :
  header? (write tag content ++ rest)
    = some (⟨tag.toNat / 64, tag.toNat / 32 % 2 = 1, tag.toNat % 32, content.length⟩, content ++ rest)
  := by
  rw [write, List.cons_append, List.append_assoc, header?, tagNumber?, if_neg htag]
  simp only [Option.bind_eq_bind, Option.bind_some, length?_lengthOctets h]
  rfl

/-- An element that is written is read back. -/
theorem element?_write (tag : UInt8) (htag : tag.toNat % 32 ≠ 31) (h : Short content) (rest : Octets) :
  element? (write tag content ++ rest) = some (written tag content, rest)
  := by
  have hle : content.length ≤ (content ++ rest).length := by simp
  simp only [element?, header?_write tag htag h, Option.bind_eq_bind, Option.bind_some, if_pos hle,
    List.take_left, List.drop_left]
  rfl

/-- An element is read only if its content is short. -/
theorem short_of_element?_write {rest : Octets} {p : Element × Octets}
    (htag : tag.toNat % 32 ≠ 31) (h : element? (write tag content ++ rest) = some p) :
  Short content
  := by
  apply Classical.byContradiction
  intro hshort
  have hnone : header? (write tag content ++ rest) = none := by
    rw [write, List.cons_append, List.append_assoc, header?, tagNumber?, if_neg htag]
    simp only [Option.bind_eq_bind, Option.bind_some, length?_lengthOctets_eq_none hshort,
      Option.bind_none]
  simp [element?, hnone] at h

theorem tagged?_write (tag : UInt8) {number : Nat} (hnumber : tag.toNat % 32 = number)
    (htag : number ≠ 31)
    (h : Short content) (rest : Octets) :
  tagged? number (write tag content ++ rest) = some (content, rest)
  := by
  subst hnumber
  simp [tagged?, element?_write tag htag h, written]

theorem primitive?_write (tag : UInt8) {number : Nat} (hnumber : tag.toNat % 32 = number)
    (htag : number ≠ 31)
    (hprimitive : tag.toNat / 32 % 2 = 0) (h : Short content) (rest : Octets) :
  primitive? number (write tag content ++ rest) = some (content, rest)
  := by
  subst hnumber
  simp [primitive?, element?_write tag htag h, written, hprimitive]

/-- An element with another tag number is refused. -/
theorem tagged?_write_of_ne (tag : UInt8) {number : Nat} (hnumber : tag.toNat % 32 ≠ number)
    (htag : tag.toNat % 32 ≠ 31) (h : Short content) (rest : Octets) :
  tagged? number (write tag content ++ rest) = none
  := by
  simp [tagged?, element?_write tag htag h, written, hnumber]

theorem tagged?_sequence {items : List Octets} (h : Short items.flatten) (rest : Octets) :
  tagged? sequenceTag (sequence items ++ rest) = some (items.flatten, rest)
  := tagged?_write 0x30 rfl (by decide) h rest

theorem tagged?_set {items : List Octets} (h : Short items.flatten) (rest : Octets) :
  tagged? setTag (set items ++ rest) = some (items.flatten, rest)
  := tagged?_write 0x31 rfl (by decide) h rest

theorem primitive?_oid (h : Short content) (rest : Octets) :
  primitive? oidTag (oid content ++ rest) = some (content, rest)
  := primitive?_write 0x06 rfl (by decide) rfl h rest

theorem primitive?_octetString (h : Short content) (rest : Octets) :
  primitive? octetStringTag (octetString content ++ rest) = some (content, rest)
  := primitive?_write 0x04 rfl (by decide) rfl h rest

/-- Bits that fill their octets are read back. -/
theorem bitString?_bitString (h : Short (0 :: content)) (rest : Octets) :
  bitString? (bitString content ++ rest) = some (content, rest)
  := by
  have hbits : bits? (0 :: content) = some content := by
    cases content with
    | nil => rfl
    | cons b more => simp [bits?]
  have hread : primitive? bitStringTag (bitString content ++ rest) = some (0 :: content, rest) :=
    primitive?_write 0x03 rfl (by decide) rfl h rest
  simp [bitString?, hread, hbits]

/-! ### Lists of items -/

variable {α : Type}

theorem manyFrom_flatMap {read : Octets → Option (α × Octets)} {write : α → Octets}
    {items : List α} (hread : ∀ a ∈ items, ∀ rest, read (write a ++ rest) = some (a, rest))
    (hend : read [] = none) {fuel : Nat} (hfuel : items.length ≤ fuel) :
  manyFrom read fuel (items.flatMap write) = (items, [])
  := by
  induction items generalizing fuel with
  | nil =>
    cases fuel with
    | zero => rfl
    | succ fuel =>
      rw [List.flatMap_nil, manyFrom, hend]
  | cons a items ih =>
    cases fuel with
    | zero => simp at hfuel
    | succ fuel =>
      rw [List.flatMap_cons, manyFrom, hread a (by simp)]
      simp only
      rw [ih (fun a' ha' => hread a' (by simp [ha'])) (by simpa using hfuel)]

/-- The items that make up octets are read back. -/
theorem many_flatMap {read : Octets → Option (α × Octets)} (write : α → Octets) {items : List α}
    (hread : ∀ a ∈ items, ∀ rest, read (write a ++ rest) = some (a, rest))
    (hend : read [] = none) (hne : ∀ a ∈ items, write a ≠ []) :
  many read (items.flatMap write) = (items, [])
  := by
  apply manyFrom_flatMap hread hend
  clear hread
  induction items with
  | nil => simp
  | cons a items ih =>
    have hpos := List.length_pos_iff.mpr (hne a (by simp))
    have := ih (fun a' ha' => hne a' (by simp [ha']))
    rw [List.flatMap_cons, List.length_append, List.length_cons]
    omega

theorem all?_flatMap {read : Octets → Option (α × Octets)} (write : α → Octets) {items : List α}
    (hread : ∀ a ∈ items, ∀ rest, read (write a ++ rest) = some (a, rest))
    (hend : read [] = none) (hne : ∀ a ∈ items, write a ≠ []) :
  all? read (items.flatMap write) = some items
  := by
  rw [all?, many_flatMap write hread hend hne]
  rfl

theorem write_ne_nil (tag : UInt8) (content : Octets) :
  write tag content ≠ []
  := by
  simp [write]

end CertKeeper.Der
